/-
  Rubric — calls that come to an end under a depth limit.

  * **`ends_unless_circular`**: in a session under a limit font passes end, and so do
    command passes that come to render nothing circular;
  * `endless_render`: a session with a command pass that does not end under a limit.
-/
import Rubric.Proofs.DepthLimit
import Rubric.Proofs.Guarded

namespace Rubric

open Context Engine

variable {c : Context} {id : DefinitionId}

/-! ## Calls that end -/

namespace Context

/-- A linked context lets every font pass end. -/
theorem IsLinked.grounded (h : c.IsLinked) : c.Grounded c.Has := by
  intro x hx
  obtain ⟨d, hd⟩ := has_iff.1 hx
  refine ⟨d, hd, fun y hy => ?_, fun _ _ _ _ => h.effectiveTags? hx⟩
  rcases hy with ⟨d', content, l, hd', hmem, hstage, hy⟩ | ⟨d', hd', hy⟩ <;>
    refine h.links hd' y (DefinitionKind.mem_links.2 ?_)
  · refine Or.inl (DefinitionKind.mem_targets.2 ⟨content, hmem, ?_⟩)
    rwa [Content.inlines, hstage]
  · rw [DefinitionKind.parts, List.mem_append, Option.mem_toList] at hy
    exact Or.inr hy

end Context

section
variable {n : Nat} {pass : Pass} {c' : Context} (hlimit : c.settings.depthLimit = some n)
include hlimit

/-- A pass that ends with a value under the limit does so without it. -/
theorem Call.Ends.released (h : (pass.call id).Ends c (.ok ()) c') :
    ∃ c₁, (pass.call id).Ends (c.limitedTo none) (.ok ()) c₁ := by
  obtain ⟨m, hgives⟩ := h
  rw [Pass.pass_call] at hgives
  have htwins := c.twins_self (some n) none
  rw [limitedTo_eq_self hlimit] at htwins
  rcases Pass.echoes_released htwins id _ _ hgives with ⟨c₁, hx, -⟩ | ⟨e, he, -⟩ | hexempt
  · exact ⟨c₁, _, by rw [Pass.pass_call]; exact hx⟩
  · cases he
  · exact hexempt.elim

/-- An error other than that the limit is reached is one under every higher limit, if the pass ends
    there. -/
theorem Call.Ends.raised {e : Error} (h : (pass.call id).Ends c (.error e) c') :
    e.cause.kind = .depthExceeded ∨ ∀ m, n ≤ m → ∀ r c'',
      (pass.call id).Ends (c.limitedTo (some m)) r c'' → r = .error e := by
  obtain ⟨j, hgives⟩ := h
  rw [Pass.pass_call] at hgives
  by_cases hkind : e.cause.kind = .depthExceeded
  · exact Or.inl hkind
  refine Or.inr fun m hle r c'' h => ?_
  have hx := Pass.gives_of_ends rfl h
  have htwins := c.twins_self (some n) (some m)
  rw [limitedTo_eq_self hlimit] at htwins
  rcases Pass.echoes_raised htwins hle id _ _ hgives with
    ⟨c₁, hy, -⟩ | ⟨_, he, hexcuse⟩ | hexempt
  · cases hx.symm.trans hy
    rfl
  · cases he
    exact hexcuse.resolve_left hkind _ _ hx
  · exact hexempt.elim

end

/-- **Under a depth limit passes end, unless commands render in a circle.**  In a session under a
    limit, let `id` be a definition.  What is added in the session finds its parent, and what is
    added by hand is not resolved and has no parts in other documents (`Edit.Applies`).

    * Its font pass ends;
    * its command pass ends if nothing that it may come to render is circular;
    * a pass that has no end without the limit ends with no value under it, if it does end, but
      with an error: that the limit is reached, or one that no higher limit puts right. -/
theorem ends_unless_circular {settings : Settings} {events : List Event} {n : Nat}
    (h : Session (.new settings) events c) (hlimit : c.settings.depthLimit = some n)
    (hid : (c.definition? id).isSome) :
    (∃ r c', (Call.fonts id).Ends c r c') ∧
      ((∀ y, c.MayRender id y → ¬ c.IsCircular y) → ∃ r c', (Call.commands id).Ends c r c') ∧
      ∀ pass : Pass, (∀ r c', ¬ (pass.call id).Ends (c.limitedTo none) r c') →
        ∀ r c', (pass.call id).Ends c r c' → ∃ e, r = .error e ∧
          (e.cause.kind = .depthExceeded ∨ ∀ m, n ≤ m → ∀ r' c'',
            (pass.call id).Ends (c.limitedTo (some m)) r' c'' → r' = .error e) := by
  have hlinked := h.isLinked
  have hhas : c.Has id := has_iff.2 (Option.isSome_iff_exists.1 hid)
  refine ⟨?_, fun hcircle => ?_, fun pass hendless r c' hends => ?_⟩
  · obtain ⟨r, c', hgives, -⟩ :=
      answers_handleFonts (n := n) hhas c ⟨hlimit, rfl, hlinked.grounded⟩
    exact ⟨r, c', n - c.depth + 1, hgives⟩
  · have hconfines := c.confines_mayRender id
    have hfree : ∀ y, c.MayRender id y ∨ c.IsBare y → ¬ c.IsCircular y := fun y hy =>
      hy.elim (hcircle y) IsBare.not_isCircular
    obtain ⟨r, c', hgives⟩ := endsFrom_handleCommands hconfines hfree MayEnter.renders hlimit
      (Or.inl .refl) (guarded_self hconfines hlinked) hhas
    exact ⟨r, c', n - c.depth + 1, hgives⟩
  · obtain ⟨e, rfl⟩ : ∃ e, r = .error e := by
      rcases r with e | ⟨⟨⟩⟩
      · exact ⟨e, rfl⟩
      · obtain ⟨c₁, h⟩ := hends.released hlimit
        exact (hendless _ _ h).elim
    exact ⟨e, rfl, hends.raised hlimit⟩

/-- Two stanzas insert each other.  They take their keys from plain text, so that nothing is
    rendered, and the command pass ends with the error that the limit is reached. -/
theorem ends_unless_circular_of_cycle :
    ∃ c c₁ c₂ : Context, ∃ events e r, Session (.new {}) events c ∧
      c.settings.depthLimit = some 3 ∧ (c.definition? ⟨0⟩).isSome ∧
      (∀ y, ¬ c.MayRender ⟨0⟩ y) ∧ (Call.commands ⟨0⟩).Ends c (.error e) c₁ ∧
      e.cause.kind = .depthExceeded ∧ (Call.fonts ⟨0⟩).Ends c r c₂ := by
  let edits := [Edit.addStandaloneStanza none "a" "\\def\x7bb\x7d",
    .addStandaloneStanza none "b" "\\def\x7ba\x7d", .setSettings { depthLimit := some 3 }]
  let c := edits.foldl Edit.apply (.new {})
  have h : Session (.new {}) ([] ++ edits.map .edit) c := Session.start.edits (by decide +kernel)
  have hsources : ∀ d ∈ c.definitions, ∀ content ∈ d.kind.contents,
      content.source = "\\def\x7ba\x7d" ∨ content.source = "\\def\x7bb\x7d" := by decide +kernel
  have hparse : ∀ {content : Content} {l},
      content.source = "\\def\x7ba\x7d" ∨ content.source = "\\def\x7bb\x7d" →
      Markup.parse c.commands content.source = .ok l →
      ∃ key, l = [.command "def" .definition [.span [.run key .unset] .unset] .unset .pending] := by
    rintro content l (hsource | hsource) hl <;> rw [hsource] at hl
    · exact ⟨"a", (Except.ok.inj hl).symm⟩
    · exact ⟨"b", (Except.ok.inj hl).symm⟩
  have hrender : ∀ y, ¬ c.MayRender ⟨0⟩ y := by
    rintro y ⟨v, z, -, ⟨d, content, l, i, key, hd, hcontent, -, hl, hi, hkey, -⟩, -⟩
    obtain ⟨written, rfl⟩ := hparse (hsources d (Array.mem_of_getElem? hd) content hcontent) hl
    obtain rfl := List.mem_singleton.1 hi
    simp only [Inline.Renders, Inline.has_command, Inline.has_span, Inline.not_has_run,
      CommandKind.rendered, CommandKind.plain, List.mem_singleton, exists_eq_left, or_false,
      reduceCtorEq, false_and] at hkey
    cases hkey with
    | span hi hshows =>
      obtain rfl := List.mem_singleton.1 hi
      cases hshows
  have hid : (c.definition? ⟨0⟩).isSome := by decide +kernel
  obtain ⟨⟨r, c₂, hfonts⟩, hcommands, -⟩ := ends_unless_circular (n := 3) h rfl hid
  obtain ⟨r₁, c₁, hends⟩ := hcommands fun y hy => absurd hy (hrender y)
  have hkind : (((Call.commands ⟨0⟩).pass 4).answer? c).map (·.1.mapError (·.cause.kind)) =
      some (.error .depthExceeded) := by decide +kernel
  obtain ⟨⟨r₁', c₁'⟩, hfails, hr⟩ := Option.map_eq_some_iff.1 hkind
  obtain ⟨rfl, rfl⟩ := hends.unique ⟨4, hfails⟩
  rcases r₁ with e | ⟨⟨⟩⟩
  · exact ⟨c, _, c₂, _, e, r, h, rfl, hid, hrender, hends, Except.error.inj hr, hfonts⟩
  · cases hr

/-- **Under a limit a command pass need not end.**  Two stanzas come to insert each other, and are
    handled, as one of them is written anew after the other one has inserted it.  A third stanza
    takes its key from what it inserts: that is rendered, in a circle. -/
theorem endless_render :
    ∃ c : Context, ∃ events, Session (.new {}) events c ∧ c.settings.depthLimit = some 8 ∧
      (c.definition? ⟨2⟩).isSome ∧ ∀ r c', ¬ (Call.commands ⟨2⟩).Ends c r c' := by
  let edits := [Edit.addStandaloneStanza none "a" "\\def\x7bb\x7d",
    .addStandaloneStanza none "b" "x",
    .addStandaloneStanza none none "\\def\x7b\\def\x7ba\x7d\x7d"]
  let c₀ := edits.foldl Edit.apply (.new {})
  let c₁ := (Call.commands ⟨0⟩).run 2 c₀
  let c₂ := (Edit.setSourceText ⟨1⟩ "\\def\x7ba\x7d").apply c₁
  let c₃ := (Call.commands ⟨1⟩).run 2 c₂
  let c := (Edit.setSettings { depthLimit := some 8 }).apply c₃
  have h₀ : Session (.new {}) ([] ++ edits.map .edit) c₀ := Session.start.edits (by decide +kernel)
  have h₁ : Session _ _ c₁ := .call h₀ (Call.ends_run (by decide +kernel))
  have h₂ : Session _ _ c₂ := .edit h₁ (by decide +kernel)
  have h₃ : Session _ _ c₃ := .call h₂ (Call.ends_run (by decide +kernel))
  have h : Session _ _ c := .edit h₃ (by decide +kernel)
  have hnone : ((Pass.commands.handle 9 ⟨2⟩).answer? c).isNone := by decide +kernel
  refine ⟨c, _, h, rfl, by decide +kernel, fun r c' hends => ?_⟩
  have hx : (Pass.commands.handle _ ⟨2⟩).Gives c r c' := Pass.gives_of_ends rfl hends
  rw [show c.depth = 0 by decide +kernel, Gives, Option.isNone_iff_eq_none.1 hnone] at hx
  cases hx

end Rubric
