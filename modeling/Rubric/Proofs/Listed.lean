/-
  Rubric — what holds of the footnotes that have left their place.

  A footnote is listed when the text it is made in is handled, and exchanged
  when that text is converted.  In both cases the text holds it then; later the
  text may be written anew, but the footnote stays in its list.

  * `mem_of_mem_rerouted`: a footnote in a list after an exchange;
  * `Context.NoteLaw`: a property of footnotes that a property of texts brings about;
  * **`NoteLaw.allListed`**: it holds of all footnotes in the lists of reachable
    contexts.
-/
import Rubric.Proofs.Routed

namespace Rubric

open Context

variable {c c' c₁ : Context} {id : DefinitionId}

namespace Context

/-! ## Lists after an exchange -/

theorem mem_of_mem_replaceFootnote {note new : Footnote} {routed : List Footnote}
    (h : note ∈ replaceFootnote new routed) : note ∈ routed ∨ note = new := by
  induction routed with
  | nil => cases h
  | cons old rest ih =>
    rw [replaceFootnote] at h
    split at h
    · exact (List.mem_cons.1 h).elim Or.inr fun h => Or.inl (List.mem_cons_of_mem _ h)
    · rcases List.mem_cons.1 h with rfl | h
      · exact Or.inl List.mem_cons_self
      · exact (ih h).imp_left (List.mem_cons_of_mem _)

/-- After an exchange a list has what it had before and what is exchanged. -/
theorem mem_of_mem_rerouted {note : Footnote} {notes routed : List Footnote}
    (h : note ∈ notes.foldl (fun routed note => replaceFootnote note routed) routed) :
    note ∈ routed ∨ note ∈ notes := by
  induction notes generalizing routed with
  | nil => exact Or.inl h
  | cons new notes ih =>
    rcases ih h with h | h
    · refine (mem_of_mem_replaceFootnote h).imp_right fun he => ?_
      exact List.mem_cons.2 (Or.inl he)
    · exact Or.inr (List.mem_cons_of_mem _ h)

/-- Footnotes are exchanged: of those that are new in the lists `P` holds. -/
theorem lists_rerouteFootnotes {P : Option DocumentId → Footnote → Prop} (c : Context)
    {document : Option DocumentId} {notes : List Footnote} (h : ∀ note ∈ notes, P document note) :
    Lists P c (c.rerouteFootnotes document notes) := by
  intro d note hnote
  rcases footnoteList_modifyFootnotes_cases c document _ d with hlist | ⟨rfl, hlist⟩ <;>
    rw [rerouteFootnotes, footnotes, hlist] at hnote
  · exact Or.inl hnote
  · exact (mem_of_mem_rerouted hnote).imp_right (h note)

/-! ## Properties of listed footnotes -/

/-- Every footnote in a list has the property. -/
def AllListed (Ψ : Context → Footnote → Prop) (c : Context) : Prop :=
  ∀ d, ∀ note ∈ c.footnotes d, Ψ c note

/-- A property of footnotes: whatever takes nothing away keeps it, and the footnotes in a text have
    it if the text has a property that handling brings about and conversion keeps. -/
structure NoteLaw (Φ : Context → DefinitionId → Content → Prop) (Ψ : Context → Footnote → Prop) :
    Prop extends TextLaw Φ where
  keep : ∀ {c c' note}, Recalls c c' → Ψ c note → Ψ c' note
  stand : ∀ {c x} {content : Content}, Φ c x content →
    ∀ note ∈ Inline.footnotes content.inlines, Ψ c note

namespace NoteLaw

variable {Φ : Context → DefinitionId → Content → Prop} {Ψ : Context → Footnote → Prop}
  (law : NoteLaw Φ Ψ)
include law

/-- Nothing is taken away, and what is new in the lists has the property. -/
theorem of_lists {P : Option DocumentId → Footnote → Prop} (hr : Recalls c c')
    (hl : Lists P c c') (hP : ∀ document note, P document note → Ψ c' note)
    (h : AllListed Ψ c) : AllListed Ψ c' := fun d note hnote =>
  (hl d note hnote).elim (fun hold => law.keep hr (h d note hold)) (hP d note)

theorem of_leavesNotes (hl : LeavesNotes c c') (hr : Recalls c c')
    (h : AllListed Ψ c) : AllListed Ψ c' :=
  law.of_lists hr (P := fun _ _ => False) hl.lists (fun _ _ => False.elim) h

/-- The command pass lists no footnote but such that have the property, however it ends. -/
theorem handleCommands (n : Nat) (id : DefinitionId) :
    (Engine.handleCommands n id).Moves fun c c' => Extends c c' ∧
      (AllListed Ψ c → AllListed Ψ c') := by
  have hpermits : Permits (fun _ => True) fun c c' => Extends c c' ∧
      (AllListed Ψ c → AllListed Ψ c') :=
    permits_extends.and ((permits_leavesNotes.and permits_recalls).mono
      ⟨fun _ h => h, fun h h' hc => h' (h hc)⟩ fun h => law.of_leavesNotes h.1 h.2)
  refine Engine.handleCommands_moves hpermits.toComposes
    (fun {c c₁} h => ⟨h.1.leave, fun hc => ?leave⟩)
    (fun {c id target d reference} hd hk hnone _ => ⟨.setTarget hd hk hnone _, ?target⟩)
    (fun n hh c id d content r c' hd hcontent h => ?content) n id
  case leave =>
    have hdepth : ∀ (c : Context) depth, AllListed Ψ c → AllListed Ψ (c.atDepth depth) :=
      fun c depth => law.of_leavesNotes (.of_eq rfl rfl rfl) (.of_definitions rfl)
    exact hdepth _ _ (h.2 (hdepth _ _ hc))
  case target =>
    exact law.of_leavesNotes ((LeavesNotes.addReference _ _ _).trans (.setTarget _ _ _))
      (.of_extends (.setTarget hd hk hnone _))
  case content =>
    refine Engine.resolveContent_moves hpermits hh hd
      (fun {written tags l notes c₁} hunparsed hwritten hl hmoves =>
        ⟨hmoves.1.handle hd hcontent hunparsed notes l, fun hc => ?_⟩) h
    -- the footnotes stand in the text, which has its property as soon as it is executed
    have hgiven := (Inline.given_rules _).inlines hl
    have hlists : Lists (fun _ note => note ∈ notes) c₁
        ((c₁.routeFootnotes d.document notes).modifyContent id
          fun content => content.resolveCommands l) :=
      lists_handle ((composes_lists _).refl c₁) fun _ hnote => hnote
    have hrecalls : Recalls c₁ ((c₁.routeFootnotes d.document notes).modifyContent id
        fun content => content.resolveCommands l) := by
      rw [modifyContent_eq]
      exact composes_recalls.trans (.of_definitions (c₁.definitions_modifyFootnotes d.document _))
        (.modifyDefinition _ (fun _ => rfl) (fun _ => rfl) fun _ => List.prefix_rfl)
    refine law.of_lists hrecalls hlists (fun _ note hnote => law.keep hrecalls ?_)
      (hmoves.2 hc)
    exact law.stand (law.handle n hwritten hl) note (hgiven hnote)

/-- The font pass lists no footnote but such that have the property, however it ends. -/
theorem handleFonts (n : Nat) (id : DefinitionId) :
    (Engine.handleFonts n id).Moves fun c c' => Converts c c' ∧
      (AllTexts Φ c → AllListed Ψ c → AllListed Ψ c') := by
  refine Engine.handleFonts_moves
    ⟨fun c => ⟨.refl c, fun _ hc => hc⟩, fun h h' => ⟨h.1.trans h'.1, fun ht hc =>
      h'.2 (law.toTextLaw.of_converts h.1 ht) (h.2 ht hc)⟩⟩
    (fun {c c₁} h => ⟨h.1.leave, fun ht hc => ?leave⟩)
    (fun {c c₁ id d content l r c'} hd hcontent hstage hmoves h => ?convert) n id
  case leave =>
    have hdepth : ∀ (c : Context) depth, AllListed Ψ c → AllListed Ψ (c.atDepth depth) :=
      fun c depth => law.of_leavesNotes (.of_eq rfl rfl rfl) (.of_definitions rfl)
    exact hdepth _ _ (h.2 (law.toTextLaw.atDepth _ ht) (hdepth _ _ hc))
  case convert =>
    have hconverts := converts_convertContent h
    refine ⟨hmoves.1.trans hconverts, fun ht hc => ?_⟩
    have hrecalls : Recalls c₁ c' := .of_converts hconverts
    have htext : Φ c₁ id content := law.mono (.of_converts hmoves.1) (ht id d hd content hcontent)
    obtain ⟨tags, d₁, warnings, -, -, -, rfl⟩ := Engine.gives_convertContent h
    refine law.of_lists hrecalls (P := fun _ note =>
      note ∈ Inline.footnotes (Inline.remapList c₁.fonts tags l)) ?lists
      (fun _ note hnote => law.keep hrecalls ?note) (hmoves.2 ht hc)
    case lists =>
      have hwrite : Lists (fun _ note => note ∈ Inline.footnotes (Inline.remapList c₁.fonts tags l))
          c₁ ((c₁.warnAll warnings).modifyDefinition id fun d =>
            { d with kind := d.kind.mapContents fun content =>
              content.resolveFonts (Inline.remap c₁.fonts tags) }) :=
        fun document _ hnote => Or.inl (by cases document <;> exact hnote)
      exact (composes_lists _).trans hwrite (lists_rerouteFootnotes _ fun _ hnote => hnote)
    case note =>
      refine law.stand (law.convert c₁.fonts tags htext) note ?_
      rw [Content.resolveFonts, hstage]
      rwa [Inline.remapList_eq] at hnote

/-- **What texts say of their footnotes holds of all footnotes in the lists** that edits and calls
    lead to, if the texts that are added by hand have the property. -/
theorem allListed {E : Context → Edit → Prop} {P : Context → Call → Except Error Unit → Prop}
    (hE : ∀ {c e}, E c e → e.FindsDocument c ∧ ∀ d ∈ e.made?, ∀ content ∈ d.kind.contents,
      Φ (e.apply c) ⟨c.definitions.size⟩ content) (h : c.Reached E P) : AllListed Ψ c := by
  induction h with
  | new settings =>
    intro d note hnote
    cases d <;> cases hnote
  | @edit c e _ _ ih =>
    intro d note hnote
    rw [footnotes, e.footnoteList_apply] at hnote
    exact law.keep (e.recalls c) (ih d note hnote)
  | @call c c' call r hc _ hends ih =>
    have htexts : AllTexts Φ c := law.toTextLaw.of_reached hE hc
    suffices hmoves : AllTexts Φ c' ∧ AllListed Ψ c' from hmoves.2
    refine hends.moves
      (R := fun c c' => AllTexts Φ c ∧ AllListed Ψ c → AllTexts Φ c' ∧ AllListed Ψ c')
      ⟨fun _ hc => hc, fun h h' hc => h' (h hc)⟩ (fun n id c r c' h hc => ?_)
      (fun n id c r c' h hc => ?_) ⟨htexts, ih⟩
    · exact ⟨(law.toTextLaw.handleCommands n id c r c' h).2 hc.1,
        (law.handleCommands n id c r c' h).2 hc.2⟩
    · obtain ⟨hconverts, hlisted⟩ := law.handleFonts n id c r c' h
      exact ⟨law.toTextLaw.of_converts hconverts hc.1, hlisted hc.1 hc.2⟩

end NoteLaw

end Context

end Rubric
