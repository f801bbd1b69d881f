/-
  Rubric — a pass that ends with a value has done all it leads to.

  * `Context.Proceeds`: any number of steps of both passes; every call proceeds
    from a sound context (`Call.Ends.proceeds`);
  * **`resolution_closure`**: in a session of calls on a built context, where the
    commands of a definition have been handled all it leads to is resolved, and
    its fonts are never asked for too early; where its fonts have been converted
    they are so in all it leads to.
-/
import Rubric.Proofs.CommandPass
import Rubric.Proofs.FontPass

namespace Rubric

open Context

variable {c c' : Context}

/-! ## Calls -/

namespace Context

/-- Any number of steps of both passes. -/
def Proceeds : Context → Context → Prop :=
  Relation.ReflTransGen fun c c' => ∃ pass, Step pass c c'

theorem Steps.proceeds {pass : Pass} (h : Steps pass c c') : Proceeds c c' :=
  Relation.ReflTransGen.mono (fun _ _ hs => ⟨pass, hs⟩) _ _ h

theorem composes_proceeds : Engine.Composes Proceeds where
  refl _ := .refl
  trans := .trans

namespace Proceeds

variable (h : Proceeds c c')
include h

/-- What every step keeps holds in the end. -/
theorem keeps {P : Context → Prop} (hstep : ∀ {pass c c'}, Step pass c c' → P c → P c')
    (hc : P c) : P c' := by
  induction h with
  | refl => exact hc
  | tail _ hs ih =>
    obtain ⟨pass, hs⟩ := hs
    exact hstep hs ih

theorem isSound (hc : c.IsSound) : c'.IsSound :=
  h.keeps (fun hs => hs.isSound) hc

theorem resolved {id : DefinitionId} (hc : c.Resolved id) : c'.Resolved id :=
  h.keeps (P := fun c => c.Resolved id) (fun hs => hs.resolved) hc

theorem settled {id : DefinitionId} (hc : c.Settled id) : c'.Settled id :=
  h.keeps (P := fun c => c.Settled id) (fun hs => hs.settled) hc

/-- Documents keep their versions. -/
theorem versions {id : DocumentId} {d' : Document} (hd' : c'.document? id = some d') :
    ∃ d, c.document? id = some d ∧ d.versions = d'.versions := by
  have hcore : c'.documents.map Document.core = c.documents.map Document.core :=
    h.keeps (P := fun c₁ => c₁.documents.map Document.core = c.documents.map Document.core)
      (fun hs he => hs.documents.trans he) rfl
  have hd : (c.document? id).map Document.core = some d'.core := by
    rw [document?, ← Array.getElem?_map, ← hcore, Array.getElem?_map]
    exact congrArg (Option.map Document.core) hd'
  obtain ⟨d, hd, he⟩ := Option.map_eq_some_iff.1 hd
  exact ⟨d, hd, show d.core.versions = d'.core.versions by rw [he]⟩

end Proceeds

end Context

/-- Both passes for all versions of a document proceed, and leave their roots resolved and
    settled. -/
theorem secures_resolveDocument (n : Nat) (id : DocumentId) :
    (Engine.resolveDocument n id).Secures IsSound Proceeds fun _ c =>
      ∀ d, c.document? id = some d → ∀ v ∈ d.versions, c.Resolved v.root ∧ c.Settled v.root := by
  intro c r c' hs h
  rw [Engine.resolveDocument, Engine.gives_get_bind, Engine.gives_ofOption_bind] at h
  obtain ⟨d, hd, h⟩ := h
  have hversion : ∀ v : Version, (do
      Engine.handleCommands n v.root
      Engine.handleFonts n v.root : Engine Unit).Secures IsSound Proceeds
        fun _ c => c.Resolved v.root ∧ c.Settled v.root := by
    intro v c r c' hs h
    rcases Engine.gives_bind.1 h with ⟨_, c₁, h₁, h₂⟩ | ⟨e, h₁, rfl⟩
    · obtain ⟨hs₁, hsteps, hresolved⟩ := secures_handleCommands n v.root _ _ _ hs h₁
      obtain ⟨hs₂, hsteps', hsettled⟩ := secures_handleFonts n v.root _ _ _ hs₁ h₂
      have hproceeds : Proceeds c c' := composes_proceeds.trans hsteps.proceeds hsteps'.proceeds
      have hresolved : c'.Resolved v.root := hsteps'.resolved (hresolved () rfl)
      exact ⟨hs₂, hproceeds, fun _ hr => ⟨hresolved, hsettled () hr⟩⟩
    · obtain ⟨hs₁, hsteps, -⟩ := secures_handleCommands n v.root _ _ _ hs h₁
      exact ⟨hs₁, hsteps.proceeds, by simp⟩
  obtain ⟨hs', hproceeds, hall⟩ := Engine.Secures.runAll composes_proceeds
    (Q := fun (v : Version) c => c.Resolved v.root ∧ c.Settled v.root)
    (fun _ _ _ hp hq => ⟨hp.resolved hq.1, hp.settled hq.2⟩) (fun v _ => hversion v) _ _ _ hs h
  refine ⟨hs', hproceeds, fun _ hr d' hd' v hv => ?_⟩
  obtain ⟨d₀, hd₀, hversions⟩ := hproceeds.versions hd'
  rw [← hversions, Option.some.inj (hd₀.symm.trans hd)] at hv
  exact hall () hr v hv

/-- **From a sound context every call proceeds, however it ends.** -/
theorem Call.Ends.proceeds {call : Call} {r : Except Error Unit} (h : call.Ends c r c')
    (hs : c.IsSound) : Proceeds c c' := by
  obtain ⟨n, h⟩ := h
  cases call with
  | commands id => exact (secures_handleCommands n id _ _ _ hs h).2.1.proceeds
  | fonts id => exact (secures_handleFonts n id _ _ _ hs h).2.1.proceeds
  | document id => exact (secures_resolveDocument n id _ _ _ hs h).2.1

/-! ## Sessions -/

namespace Session

variable {c₀ : Context} {events : List Event} (hbuilt : c₀.IsBuilt) (h : Session c₀ events c)
  (hcalls : ∀ e ∈ events, e.IsCall)
include hbuilt h hcalls

/-- A built context stays sound throughout a session of calls. -/
theorem isSound : c.IsSound :=
  h.invariant hcalls hbuilt.isFresh.isSound fun _ hs hends => (hends.proceeds hs).isSound hs

/-- What a call that ended with a value brought about holds from then on. -/
theorem returned {call : Call} {Q : Context → Prop} (hcall : .call call (.ok ()) ∈ events)
    (hest : ∀ {c c'}, c.IsSound → call.Ends c (.ok ()) c' → Q c')
    (hkeep : ∀ {c c'}, Proceeds c c' → Q c → Q c') : Q c :=
  h.after hcalls hbuilt.isFresh.isSound (fun _ hs hends => (hends.proceeds hs).isSound hs) hcall
    hest fun hs hq hends => hkeep (hends.proceeds hs) hq

theorem resolved {id : DefinitionId} (hcall : .call (.commands id) (.ok ()) ∈ events) :
    c.Resolved id := by
  refine h.returned hbuilt hcalls (Q := fun c => c.Resolved id) hcall ?_ fun hp => hp.resolved
  rintro c c' hs ⟨n, hends⟩
  exact (secures_handleCommands n id _ _ _ hs hends).2.2 () rfl

theorem settled {id : DefinitionId} (hcall : .call (.fonts id) (.ok ()) ∈ events) :
    c.Settled id := by
  refine h.returned hbuilt hcalls (Q := fun c => c.Settled id) hcall ?_ fun hp => hp.settled
  rintro c c' hs ⟨n, hends⟩
  exact (secures_handleFonts n id _ _ _ hs hends).2.2 () rfl

theorem roots {id : DocumentId} {d : Document} (hcall : .call (.document id) (.ok ()) ∈ events)
    (hd : c.document? id = some d) : ∀ v ∈ d.versions, c.Resolved v.root ∧ c.Settled v.root := by
  refine h.returned hbuilt hcalls (Q := fun c => ∀ d, c.document? id = some d →
    ∀ v ∈ d.versions, c.Resolved v.root ∧ c.Settled v.root) hcall ?_ ?_ d hd
  · rintro c c' hs ⟨n, hends⟩
    exact (secures_resolveDocument n id _ _ _ hs hends).2.2 () rfl
  · intro c c' hp hq d' hd' v hv
    obtain ⟨d, hd, hversions⟩ := hp.versions hd'
    rw [← hversions] at hv
    obtain ⟨hr, hc⟩ := hq d hd v hv
    exact ⟨hp.resolved hr, hp.settled hc⟩

end Session

/-! ## Closure -/

/-- Wherever the definition leads, all fonts are converted. -/
def Context.Converted (c : Context) (id : DefinitionId) : Prop :=
  ∀ x, c.Reaches id x → ∃ d, c.definition? x = some d ∧ d.kind.IsConverted

theorem Context.Settled.converted {id : DefinitionId} (h : c.Settled id) : c.Converted id :=
  fun _ hx => (h.reaches hx).definition

/-- **What a definition leads to is done when it is.**  After any calls on a built context: where
    commands were handled with success, they are so all the way, and the fonts are never asked for
    too early; where fonts were converted with success, they are so all the way; and where a
    document was resolved with success, both holds of the roots of its versions.  What is added
    while the context is built finds its parent, and what is added by hand is not resolved and has
    no parts in other documents (`Edit.Applies`). -/
theorem resolution_closure {c₀ c : Context} {events : List Event} (hbuilt : c₀.IsBuilt)
    (h : Session c₀ events c) (hcalls : ∀ e ∈ events, e.IsCall) :
    (∀ id, .call (.commands id) (.ok ()) ∈ events →
      c.Resolved id ∧ ∀ e c', (Call.fonts id).Ends c (.error e) c' → e.cause.kind ≠ .ordering) ∧
    (∀ id, .call (.fonts id) (.ok ()) ∈ events → c.Converted id) ∧
    ∀ id d, .call (.document id) (.ok ()) ∈ events → c.document? id = some d →
      ∀ v ∈ d.versions, c.Resolved v.root ∧ c.Converted v.root := by
  refine ⟨fun id hcall => ?_, fun id hcall => ?_, fun id d hcall hd v hv => ?_⟩
  · have hr := h.resolved hbuilt hcalls hcall
    refine ⟨hr, ?_⟩
    rintro e c' ⟨n, hends⟩
    exact spares_handleFonts n id (h.isSound hbuilt hcalls) hr e c' hends
  · exact (h.settled hbuilt hcalls hcall).converted
  · obtain ⟨hr, hc⟩ := h.roots hbuilt hcalls hcall hd v hv
    exact ⟨hr, hc.converted⟩

/-- A document of two stanzas, the second of which inserts the first: after a call for the
    commands and one for the fonts of its root, the second stanza is resolved and converted, and
    so is the first. -/
theorem resolution_closure_of_insertion :
    ∃ c₀ c : Context, ∃ events, c₀.IsBuilt ∧ Session c₀ events c ∧ (∀ e ∈ events, e.IsCall) ∧
      .call (.commands ⟨0⟩) (.ok ()) ∈ events ∧ .call (.fonts ⟨0⟩) (.ok ()) ∈ events ∧
      c.Reaches ⟨0⟩ ⟨2⟩ ∧ c.Reaches ⟨2⟩ ⟨1⟩ ∧ c.Resolved ⟨0⟩ ∧ c.Converted ⟨0⟩ := by
  let c₀ := [Edit.addDocument "d" "D", .addVersion ⟨0⟩ (.ofKnown .coptic) (some "CS Avva Shenouda"),
    .addStanza ⟨0⟩ (some "a") "x", .addStanza ⟨0⟩ none "\\def\x7ba\x7d"].foldl Edit.apply (.new {})
  let c₁ := (Call.commands ⟨0⟩).run 4 c₀
  let c₂ := (Call.fonts ⟨0⟩).run 4 c₁
  have hbuilt : c₀.IsBuilt := (Context.isBuilt_new {}).edits (by decide +kernel)
  have h : Session c₀
      ([] ++ [.call (.commands ⟨0⟩) (.ok ())] ++ [.call (.fonts ⟨0⟩) (.ok ())]) c₂ :=
    .call (.call .start (Call.ends_run (by decide +kernel))) (Call.ends_run (by decide +kernel))
  have hcalls : ∀ e ∈ [] ++ [Event.call (.commands ⟨0⟩) (.ok ())] ++
      [.call (.fonts ⟨0⟩) (.ok ())], e.IsCall := by
    simp [Event.IsCall]
  obtain ⟨hcommands, hfonts, -⟩ := resolution_closure hbuilt h hcalls
  exact ⟨c₀, c₂, _, hbuilt, h, hcalls, by simp, by simp,
    .single (links_of_mem (by decide +kernel)), .single (links_of_mem (by decide +kernel)),
    (hcommands ⟨0⟩ (by simp)).1, hfonts ⟨0⟩ (by simp)⟩

end Rubric
