/-
  Rubric — relations that whole passes move contexts along.

  A pass does the same kinds of steps over and over: it handles the text of a
  node, sets a target, or converts a text, each time after other passes have
  done so.  A relation that these steps keep is kept by the pass.

  * `Engine.resolveSource_moves`, `Engine.resolveContent_moves`: what commands do,
    and what is done with a text once they have succeeded;
  * `Engine.commandPass_moves`, `Engine.handleCommands_moves`: what is done with
    one text, and that targets are set, for the command pass;
  * `Engine.fontPass_moves`, `Engine.handleFonts_moves`: what is done with one
    text, for the font pass;
  * **`Call.Ends.moves`**: a relation that both passes move along is one for calls.
-/
import Rubric.Proofs.CommandPass
import Rubric.Proofs.FontPass

namespace Rubric

open Context

variable {c c' : Context} {R : Context → Context → Prop}

namespace Engine

/-! ## The command pass -/

/-- Reading a source moves contexts along every relation that allows what commands do and that
    footnotes leave their place. -/
theorem resolveSource_moves {handle : DefinitionId → Engine Unit}
    (hR : Permits (fun _ => True) R)
    (hroute : ∀ c document notes, R c (c.routeFootnotes document notes))
    (hh : ∀ id, (handle id).Moves R) (owner : DefinitionId) (source : String) :
    (resolveSource handle owner source).Moves R := by
  have hc := hR.toComposes
  refine .bind hc (.get hc) fun c => .bind hc (.ofExcept hc _) fun l => ?_
  refine .bind hc (.ofOption hc _) fun tags => .bind hc (.definition hc owner) fun d => ?_
  refine .bind hc (Inline.executeList_moves hR hh l (fun i _ => Inline.uses_all) tags) fun _ => ?_
  exact .bind hc (.modify fun c => hroute c d.document _) fun _ => .pure hc _

/-- Handling the text of a definition moves contexts along a relation that executions move
    along, if it holds once the commands have succeeded, with the tags in effect around them, and
    their footnotes have left their place. -/
theorem resolveContent_moves_of_tags {handle : DefinitionId → Engine Unit} {id : DefinitionId}
    {d : Definition} {content : Content} {r : Except Error Unit} (hR : Composes R)
    (hexecute : ∀ tags l,
      (Inline.executeList handle { owner := id, document := d.document } tags l).Moves R)
    (hd : c.definition? id = some d)
    (hok : ∀ {written tags l notes c₁}, content.stage = .unparsed →
      Markup.parse c.commands content.source = .ok written → c.effectiveTags? id = some tags →
      (Inline.executeList handle { owner := id, document := d.document } tags written).Gives c
        (.ok (l, notes)) c₁ → R c c₁ →
      R c ((c₁.routeFootnotes d.document notes).modifyContent id fun content =>
        content.resolveCommands l))
    (h : (resolveContent handle id content).Gives c r c') : R c c' := by
  rcases gives_resolveContent h with ⟨-, -, rfl⟩ | ⟨hunparsed, r₁, c₂, hsource, hends⟩
  · exact hR.refl _
  rcases gives_resolveSource hsource with ⟨_, -, rfl, rfl⟩ |
    ⟨written, tags, d', hwritten, htags, hd', ⟨e, rfl, hl⟩ | ⟨l, notes, c₁, rfl, hl, rfl⟩⟩
  · rcases hends with ⟨_, -, -, rfl⟩ | ⟨_, hr, -⟩
    · exact hR.refl _
    · cases hr
  all_goals
    cases hd.symm.trans hd'
    have hc₁ := hexecute _ _ _ _ _ hl
  · rcases hends with ⟨_, -, -, rfl⟩ | ⟨_, hr, -⟩
    · exact hc₁
    · cases hr
  · rcases hends with ⟨_, hr, -⟩ | ⟨_, hr, -, rfl⟩ <;> cases hr
    exact hok hunparsed hwritten htags hl hc₁

/-- The same, whatever the tags in effect are. -/
theorem resolveContent_moves_of_execute {handle : DefinitionId → Engine Unit} {id : DefinitionId}
    {d : Definition} {content : Content} {r : Except Error Unit} (hR : Composes R)
    (hexecute : ∀ tags l,
      (Inline.executeList handle { owner := id, document := d.document } tags l).Moves R)
    (hd : c.definition? id = some d)
    (hok : ∀ {written tags l notes c₁}, content.stage = .unparsed →
      Markup.parse c.commands content.source = .ok written →
      (Inline.executeList handle { owner := id, document := d.document } tags written).Gives c
        (.ok (l, notes)) c₁ → R c c₁ →
      R c ((c₁.routeFootnotes d.document notes).modifyContent id fun content =>
        content.resolveCommands l))
    (h : (resolveContent handle id content).Gives c r c') : R c c' :=
  resolveContent_moves_of_tags hR hexecute hd (fun hunparsed hwritten _ => hok hunparsed hwritten) h

/-- Handling the text of a definition moves contexts along a relation that allows what commands
    do, if it holds once they have succeeded and their footnotes have left their place. -/
theorem resolveContent_moves {handle : DefinitionId → Engine Unit} {id : DefinitionId}
    {d : Definition} {content : Content} {r : Except Error Unit} (hR : Permits (fun _ => True) R)
    (hh : ∀ id, (handle id).Moves R) (hd : c.definition? id = some d)
    (hok : ∀ {written tags l notes c₁}, content.stage = .unparsed →
      Markup.parse c.commands content.source = .ok written →
      (Inline.executeList handle { owner := id, document := d.document } tags written).Gives c
        (.ok (l, notes)) c₁ → R c c₁ →
      R c ((c₁.routeFootnotes d.document notes).modifyContent id fun content =>
        content.resolveCommands l))
    (h : (resolveContent handle id content).Gives c r c') : R c c' :=
  resolveContent_moves_of_execute hR.toComposes
    (fun tags l => Inline.executeList_moves hR hh l (fun _ _ => Inline.uses_all) tags) hd hok h

/-- The command pass of a node moves along a relation that allows targets to be set and that the
    handling of one text moves along, if the passes of other nodes do. -/
theorem commandPass_moves {handle : DefinitionId → Engine Unit} (hR : Composes R)
    (htarget : ∀ {c : Context} {id target d reference}, c.definition? id = some d →
      d.kind = .partReference reference → reference.target = none →
      c.lookup? reference.targetKey d.document = some target →
      R c ((c.addReference target id).setTarget id target))
    (hcontent : ∀ {c id d content r c'}, c.definition? id = some d → content ∈ d.kind.contents →
      (resolveContent handle id content).Gives c r c' → R c c')
    (hh : ∀ id, (handle id).Moves R) (id : DefinitionId) : (commandPass handle id).Moves R := by
  intro c r c' h
  obtain ⟨d, hd, hpass⟩ := gives_commandPass h
  cases hpass with
  | @parts r₁ r₂ c₁ _ _ htext hparts =>
    have htext : R c c₁ := by
      rcases htext with ⟨-, -, rfl⟩ | ⟨content, hmem, hcontent'⟩
      · exact hR.refl _
      · exact hcontent hd hmem hcontent'
    refine hR.trans htext (Moves.runAll hR (fun x hx => ?_) _ _ _ hparts)
    obtain ⟨child, -, rfl⟩ := List.mem_map.1 hx
    exact hh child
  | target _ _ hgives => exact hh _ _ _ _ hgives
  | found hk hnone hl hgives => exact hR.trans (htarget hd hk hnone hl) (hh _ _ _ _ hgives)
  | missing => exact hR.refl _

/-! ## The font pass -/

section
variable {handle : DefinitionId → Engine Unit} (hR : Composes R) (hh : ∀ id, (handle id).Moves R)
include hR hh

/-- The passes of several nodes move along what the pass of each moves along, however they are
    run. -/
theorem each_moves {x : Engine Unit} {ids : List DefinitionId}
    (h : x = ids.forM handle ∨ x = runAll (ids.map handle)) : x.Moves R := by
  rcases h with h | h <;> rw [h]
  · exact .forM hR fun id _ => hh id
  · refine .runAll hR fun x hx => ?_
    obtain ⟨id, -, rfl⟩ := List.mem_map.1 hx
    exact hh id

section
variable (hconvert : ∀ {c c₁ : Context} {id d content l r c'}, c.definition? id = some d →
  content ∈ d.kind.contents → content.stage = .commandsResolved l → R c c₁ →
  (convertContent id l).Gives c₁ r c' → R c c')
include hconvert

omit hh in
/-- The font pass of a text moves along a relation that is kept when a text is converted after
    other passes, if the passes of the definitions that its commands stand for do. -/
theorem rel_of_convert {targets : List DefinitionId → Engine Unit} {id : DefinitionId}
    {d : Definition} {content : Content} {r : Except Error Unit} (ht : ∀ ids, (targets ids).Moves R)
    (hd : c.definition? id = some d) (hmem : content ∈ d.kind.contents)
    (h : (convert targets id content).Gives c r c') : R c c' := by
  unfold convert at h
  split at h
  · obtain ⟨-, rfl⟩ := gives_fail.1 h
    exact hR.refl _
  · obtain ⟨-, rfl⟩ := gives_pure.1 h
    exact hR.refl _
  · rename_i l hstage
    rcases gives_bind.1 h with ⟨_, c₂, h₁, h₂⟩ | ⟨e, h₁, -⟩
    · exact hconvert hd hmem hstage (ht _ _ _ _ h₁) h₂
    · exact ht _ _ _ _ h₁

/-- The font pass of a node moves along such a relation if the passes of other nodes do. -/
theorem fontPass_moves (id : DefinitionId) : (fontPass handle id).Moves R := by
  intro c r c' h
  obtain ⟨d, hd, hpass⟩ := gives_fontPass h
  cases hpass with
  | @parts targets r₁ r₂ c₁ _ _ htargets htext hparts =>
    have htext : R c c₁ := by
      rcases htext with ⟨-, -, rfl⟩ | ⟨content, hmem, h⟩
      · exact hR.refl _
      · exact rel_of_convert hR hconvert (fun ids => each_moves hR hh (htargets ids)) hd hmem h
    exact hR.trans htext (each_moves hR hh (Or.inr rfl) _ _ _ hparts)
  | target _ _ hgives => exact hh _ _ _ _ hgives
  | missing => exact hR.refl _

end

end

/-! ## Nested passes -/

section
variable (hR : Composes R)
  (hleave : ∀ {c c₁ : Context}, R (c.atDepth (c.depth + 1)) c₁ → R c (c₁.atDepth (c₁.depth - 1)))
include hR hleave

theorem nested_moves {frame : Frame} {x : Engine Unit} (hx : x.Moves R) :
    (nested frame x).Moves R := by
  intro c r c' h
  rcases gives_nested h with ⟨limit, -, -, -, rfl⟩ | ⟨r₁, c₁, h₁, -, rfl⟩
  · exact hR.refl _
  · exact hleave (hx _ _ _ h₁)

/-- The command pass moves along a relation that allows targets to be set and that the handling
    of one text moves along if the passes of nodes do. -/
theorem handleCommands_moves
    (htarget : ∀ {c : Context} {id target d reference}, c.definition? id = some d →
      d.kind = .partReference reference → reference.target = none →
      c.lookup? reference.targetKey d.document = some target →
      R c ((c.addReference target id).setTarget id target))
    (hcontent : ∀ n, (∀ id, (handleCommands n id).Moves R) →
      ∀ {c id d content r c'}, c.definition? id = some d → content ∈ d.kind.contents →
      (resolveContent (handleCommands n) id content).Gives c r c' → R c c')
    (n : Nat) (id : DefinitionId) : (handleCommands n id).Moves R := by
  induction n generalizing id with
  | zero =>
    intro c r c' h
    exact (gives_endless.1 h).elim
  | succ n ih =>
    rw [handleCommands]
    refine .bind hR (.definition hR id) fun d => nested_moves hR hleave ?_
    exact commandPass_moves hR htarget (hcontent n ih) ih id

/-- The font pass moves along a relation that is kept when a text is converted, after other
    passes of nodes. -/
theorem handleFonts_moves
    (hconvert : ∀ {c c₁ : Context} {id d content l r c'}, c.definition? id = some d →
      content ∈ d.kind.contents → content.stage = .commandsResolved l → R c c₁ →
      (convertContent id l).Gives c₁ r c' → R c c')
    (n : Nat) (id : DefinitionId) : (handleFonts n id).Moves R := by
  induction n generalizing id with
  | zero =>
    intro c r c' h
    exact (gives_endless.1 h).elim
  | succ n ih =>
    rw [handleFonts]
    refine .bind hR (.definition hR id) fun d => nested_moves hR hleave ?_
    exact fontPass_moves hR ih hconvert id

end

end Engine

/-! ## Calls -/

/-- A relation that the passes of nodes move along is one for every call. -/
theorem Call.Ends.moves (hR : Engine.Composes R)
    (hcommands : ∀ n id, (Engine.handleCommands n id).Moves R)
    (hfonts : ∀ n id, (Engine.handleFonts n id).Moves R) {call : Call} {r : Except Error Unit}
    (h : call.Ends c r c') : R c c' := by
  obtain ⟨n, h⟩ := h
  cases call with
  | commands id => exact hcommands n id _ _ _ h
  | fonts id => exact hfonts n id _ _ _ h
  | document id =>
    refine Engine.Moves.bind hR (.get hR) (fun c => ?_) _ _ _ h
    refine .bind hR (.ofOption hR _) fun document => .runAll hR fun x hx => ?_
    obtain ⟨version, -, rfl⟩ := List.mem_map.1 hx
    exact .bind hR (hcommands n version.root) fun _ => hfonts n version.root

end Rubric
