/-
  Rubric — command passes that come to an end under a depth limit.

  The limit bounds how deep passes nest, but not how far commands render.

  * `Context.Guarded`: what holds of contexts in the course of a command pass;
    `Context.StaysGuarded`: what passes do between two contexts;
  * `Context.Accords`: inlines whose commands run and render what they may;
    `endsFrom_execute`: their execution ends;
  * `endsFrom_commandPass`: the pass of one node ends if those of others do;
  * **`endsFrom_handleCommands`**: under a limit the command pass of a node ends if
    nothing that it may come to render is circular.
-/
import Rubric.Proofs.Completion
import Rubric.Proofs.Independence

namespace Rubric

open Context Engine

variable {c₀ c c' c₁ : Context} {id x : DefinitionId} {nodes legible : DefinitionId → Prop}
  {k m : Nat}

/-! ## Contexts in the course of a command pass -/

namespace Context

/-- The context has come from `c₀` by passes that have kept to the sets, `k` being under way: all is
    linked in it, and nothing shows in it but what may come to. -/
structure Guarded (c₀ : Context) (nodes legible : DefinitionId → Prop) (k : Nat) (c : Context) :
    Prop where
  linked : c.IsLinked
  extension : Extends (c₀.atDepth k) c
  confined : Confined c₀ nodes legible c
  exposed : Exposed c₀ c

theorem guarded_self (hconfines : c.Confines nodes legible) (hlinked : c.IsLinked) :
    Guarded c nodes legible c.depth c where
  linked := hlinked
  extension := .refl c
  confined := hconfines.confined
  exposed := exposed_self c

theorem Extends.has (h : Extends c c') (hx : c.Has x) : c'.Has x := by
  obtain ⟨d, hd⟩ := has_iff.1 hx
  obtain ⟨references, kind, hd', -⟩ := h.old hd
  exact has_iff.2 ⟨_, hd'⟩

namespace Guarded

variable (h : Guarded c₀ nodes legible k c)
include h

theorem depth_eq : c.depth = k :=
  h.extension.depth

theorem atDepth (depth : Nat) : Guarded c₀ nodes legible depth (c.atDepth depth) where
  linked := (StaysLinked.of_core_eq (c.core_atDepth depth) h.linked).1
  extension := h.extension.atDepth depth
  confined := h.confined.of_core_eq (c.core_atDepth depth)
  exposed := h.exposed.of_core_eq (c.core_atDepth depth)

/-- What is legible has a text, if nothing legible is circular. -/
theorem segments? (hconfines : c₀.Confines nodes legible)
    (hcircle : ∀ y, legible y → ¬ c₀.IsCircular y) (hx : legible x) (hhas : c.Has x) :
    (c.segments? x).isSome := by
  refine h.exposed.segments? h.linked (h.depth_eq ▸ h.extension) (fun y hy => hcircle y ?_) hhas
  induction hy with
  | refl => exact hx
  | tail _ hyz ih => exact hconfines.shows ih hyz

/-- So has an inline that shows what is legible. -/
theorem presents {p : Inline} (hconfines : c₀.Confines nodes legible)
    (hcircle : ∀ y, legible y → ¬ c₀.IsCircular y)
    (hshown : ∀ t ∈ Inline.shownTargets [p], legible t) (hhas : ∀ t ∈ Inline.targets [p], c.Has t) :
    c.Presents p := fun t ht =>
  h.segments? hconfines hcircle (hshown t ht) (hhas t (Inline.targets_of_shownTargets ht))

end Guarded

/-- From a guarded context this leads to a guarded one. -/
def StaysGuarded (c₀ : Context) (nodes legible : DefinitionId → Prop) (c c' : Context) : Prop :=
  Extends c c' ∧ ∀ k, Guarded c₀ nodes legible k c → Guarded c₀ nodes legible k c'

theorem composes_staysGuarded (c₀ : Context) (nodes legible : DefinitionId → Prop) :
    Engine.Composes (StaysGuarded c₀ nodes legible) where
  refl c := ⟨.refl c, fun _ h => h⟩
  trans h h' := ⟨h.1.trans h'.1, fun k hc => h'.2 k (h.2 k hc)⟩

theorem StaysGuarded.of (hextends : Extends c c') (hlinked : StaysLinked c c')
    (hconfined : Confined c₀ nodes legible c → Confined c₀ nodes legible c')
    (hexposed : Exposed c₀ c → Exposed c₀ c') : StaysGuarded c₀ nodes legible c c' :=
  ⟨hextends, fun _ h => {
    linked := (hlinked h.linked).1
    extension := h.extension.trans hextends
    confined := hconfined h.confined
    exposed := hexposed h.exposed }⟩

theorem permits_staysGuarded (c₀ : Context) (nodes legible : DefinitionId → Prop) :
    Permits (fun _ => True) (StaysGuarded c₀ nodes legible) :=
  (permits_extends.and (permits_staysLinked.and
    ((permits_confined c₀ nodes legible).and (permits_exposed c₀)))).mono
      (composes_staysGuarded c₀ nodes legible)
      fun ⟨hextends, hlinked, hconfined, hexposed⟩ => .of hextends hlinked hconfined hexposed

end Context

section
variable (hconfines : c₀.Confines nodes legible)
include hconfines

/-- Command passes lead from guarded contexts to guarded ones. -/
theorem staysGuarded_handleCommands (n : Nat) (id : DefinitionId) :
    (handleCommands n id).Moves (StaysGuarded c₀ nodes legible) := fun _ _ _ h =>
  .of (extends_handleCommands n id _ _ _ h) (staysLinked_handleCommands n id _ _ _ h)
    (confined_handleCommands hconfines n id _ _ _ h) (exposed_handleCommands n id _ _ _ h)

/-- So does the handling of one text. -/
theorem staysGuarded_resolveContent (n : Nat) {d : Definition} {content : Content}
    {r : Except Error Unit} (hd : c.definition? id = some d) (hcontent : content ∈ d.kind.contents)
    (h : (resolveContent (handleCommands n) id content).Gives c r c') :
    StaysGuarded c₀ nodes legible c c' :=
  .of (extends_resolveContent (extends_handleCommands n) hd hcontent h)
    (staysLinked_resolveContent (staysLinked_handleCommands n) hd h)
    (confined_resolveContent (confined_handleCommands hconfines n) hconfines hd hcontent h)
    (exposed_resolveContent (exposed_handleCommands n)
      (fun x => confined_handleCommands (c₀.confines_exposes x) n) hd hcontent h)

/-- A part reference gets its target. -/
theorem staysGuarded_setTarget {d : Definition} {reference : PartReference} {target : DefinitionId}
    (hd : c.definition? id = some d) (hk : d.kind = .partReference reference)
    (hnone : reference.target = none)
    (hl : c.lookup? reference.targetKey d.document = some target) :
    StaysGuarded c₀ nodes legible c ((c.addReference target id).setTarget id target) :=
  .of (.setTarget hd hk hnone target) (staysLinked_setTarget hl)
    (fun h => (h.setTarget hconfines hd hk hnone hl).2) fun h => h.setTarget hd hk hnone hl

end

/-! ## Execution that ends -/

namespace Context

/-- An unread inline whose commands run the passes of nodes and render what is legible. -/
structure Accords (c₀ : Context) (nodes legible : DefinitionId → Prop) (scope : Scope)
    (i : Inline) : Prop extends c₀.Suits nodes legible scope i where
  renders : ∀ key, i.Renders key → ∀ y, c₀.lookup? key scope.document = some y → legible y

namespace Accords

variable {scope : Scope} {name : String} {kind : CommandKind} {ps ps' : List Inline} {own : Tags}

theorem span {l : List Inline} (h : c₀.Accords nodes legible scope (.span l own)) {i : Inline}
    (hi : i ∈ l) : c₀.Accords nodes legible scope i where
  toSuits := h.toSuits.span hi
  renders key hkey := h.renders key (Inline.has_span.2 ⟨i, hi, hkey⟩)

variable (h : c₀.Accords nodes legible scope (.command name kind ps own .pending))
include h

theorem parameter {p : Inline} (hp : p ∈ ps) : c₀.Accords nodes legible scope p where
  toSuits := h.toSuits.parameter hp
  renders key hkey := h.renders key (Inline.has_command.2 (Or.inr ⟨p, hp, hkey⟩))

/-- What becomes of a parameter that the command renders shows what is legible. -/
theorem renderable {p p' : Inline} (hp : p ∈ kind.rendered ps)
    (hyields : Inline.Yields c₀ legible scope.document p p') :
    ∀ t ∈ Inline.shownTargets [p'], legible t :=
  hyields.shown fun key hkey =>
    h.renders key (Inline.has_command.2 (Or.inl (Or.inl ⟨p, hp, hkey⟩)))

end Accords

end Context

section
variable {scope : Scope} (hconfines : c₀.Confines nodes legible)
  (hcircle : ∀ y, legible y → ¬ c₀.IsCircular y)
  (hh : ∀ y, nodes y → ∀ {c}, Guarded c₀ nodes legible k c → c.Has y →
    (handleCommands m y).EndsFrom c)
include hconfines hcircle hh

omit hcircle hh in
/-- Execution leads from guarded contexts to guarded ones. -/
theorem staysGuarded_executeList {l l' : List Inline} {tags : Tags} {notes : List Footnote}
    (h : (Inline.executeList (handleCommands m) scope tags l).Gives c (.ok (l', notes)) c') :
    StaysGuarded c₀ nodes legible c c' :=
  Inline.executeList_moves (permits_staysGuarded c₀ nodes legible)
    (staysGuarded_handleCommands hconfines m) l (fun _ _ => Inline.uses_all) tags _ _ _ h

omit hcircle hh in
theorem staysGuarded_execute {i i' : Inline} {tags : Tags} {notes : List Footnote}
    (h : (i.execute (handleCommands m) scope tags).Gives c (.ok (i', notes)) c') :
    StaysGuarded c₀ nodes legible c c' :=
  Inline.execute_moves (permits_staysGuarded c₀ nodes legible)
    (staysGuarded_handleCommands hconfines m) i Inline.uses_all tags _ _ _ h

omit hcircle hh in
theorem endsFrom_executeList_of {l : List Inline}
    (hl : ∀ i ∈ l, ∀ (tags : Tags) {c}, Guarded c₀ nodes legible k c →
      (i.execute (handleCommands m) scope tags).EndsFrom c)
    (tags : Tags) (hc : Guarded c₀ nodes legible k c) :
    (Inline.executeList (handleCommands m) scope tags l).EndsFrom c := by
  induction l generalizing c with
  | nil =>
    rw [Inline.executeList]
    exact .pure _
  | cons i l ih =>
    rw [Inline.executeList]
    refine .then (hl i (by simp) tags hc) fun _ c₁ h₁ => ?_
    have hc₁ := (staysGuarded_execute hconfines h₁).2 k hc
    exact .then (ih (fun j hj => hl j (by simp [hj])) hc₁) fun _ _ _ => .pure _

/-- A command ends whose parameters are executed. -/
theorem endsFrom_run_of_executed {name : String} {kind : CommandKind} {ps ps' : List Inline}
    {own tags : Tags} {notes : List Footnote}
    (hi : c₀.Accords nodes legible scope (.command name kind ps own .pending))
    (hc : Guarded c₀ nodes legible k c)
    (h : (Inline.executeList (handleCommands m) scope tags ps).Gives c (.ok (ps', notes)) c₁) :
    (Invocation.run (handleCommands m) { name, scope, tags } kind ps').EndsFrom c₁ := by
  have hfresh : ∀ p ∈ ps, p.IsFresh := fun p hp => (hi.parameter hp).fresh
  have hyields := ((yields_rules (confined_handleCommands hconfines m) scope).inlines h
    hc.confined hfresh).2
  have hhas := ((linked_law scope).targets_executeList permits_staysLinked
    (staysLinked_handleCommands m) hfresh (fun _ _ => Inline.uses_all) hc.linked h).2
  have hc₁ := (staysGuarded_executeList hconfines h).2 k hc
  refine Invocation.endsFrom_run _ hc₁.linked (fun p' hp' => ?_) fun y hy => ?_
  · obtain ⟨p, hp, hyield⟩ := exists_of_mem_forall₂ (kind.forall₂_rendered hyields) hp'
    refine hc₁.presents hconfines hcircle (hi.renderable hp hyield) fun t ht => ?_
    have hp'' := kind.rendered_subset ps' hp'
    exact hhas t (Inline.mem_targets_iff.2 ⟨p', hp'', ht⟩)
  · have hnode : nodes y := hi.handles hc₁.confined hyields hy
    obtain ⟨key, hl⟩ := hy.exists_key
    -- the pass starts when the use of the node has been recorded
    have huse := (permits_staysGuarded c₀ nodes legible).reference c₁ y scope.owner
    have hc₂ := huse.2 k hc₁
    have hhas₂ := huse.1.has (hc₁.linked.lookup? hl)
    refine ⟨hh y hnode hc₂ hhas₂, ?_⟩
    -- of a separator the text is read when the pass has ended
    rintro rfl c₃ hgives
    obtain ⟨hextends, hguarded⟩ := staysGuarded_handleCommands hconfines m y _ _ _ hgives
    refine (hguarded k hc₂).segments? hconfines hcircle ?_ (hextends.has hhas₂)
    refine hc₁.confined.found (fun _ => And.right) (hi.renders _ ?_) hy
    exact Inline.has_command.2 (Or.inl (Or.inr ⟨rfl, rfl⟩))

omit hh in
/-- What becomes of a parameter that a command executes first has a text. -/
theorem presents_of_executed {name : String} {kind : CommandKind} {p p' : Inline}
    {ps : List Inline} {own tags : Tags} {notes : List Footnote}
    (hi : c₀.Accords nodes legible scope (.command name kind (p :: ps) own .pending))
    (ho : kind.resolvesOwnParameters = true) (hc : Guarded c₀ nodes legible k c)
    (h : (p.execute (handleCommands m) scope tags).Gives c (.ok (p', notes)) c₁) :
    c₁.Presents p' ∧ ∀ t ∈ Inline.targets [p'], c₁.Has t := by
  have hp := hi.parameter (p := p) (by simp)
  have hyields := ((yields_rules (confined_handleCommands hconfines m) scope).inline p h
    hc.confined hp.fresh).2
  have hhas := ((linked_law scope).targets_execute permits_staysLinked
    (staysLinked_handleCommands m) hp.fresh Inline.uses_all hc.linked h).2
  refine ⟨?_, hhas⟩
  refine ((staysGuarded_execute hconfines h).2 k hc).presents hconfines hcircle ?_ hhas
  refine hi.renderable (p := p) ?_ hyields
  cases kind <;> first | exact List.mem_singleton_self p | cases ho

/-- The execution of what commands may execute ends. -/
theorem endsFrom_execute (i : Inline) (hi : c₀.Accords nodes legible scope i) (tags : Tags)
    (hc : Guarded c₀ nodes legible k c) :
    (i.execute (handleCommands m) scope tags).EndsFrom c := by
  induction i using Inline.induction generalizing tags c with
  | run text own =>
    rw [Inline.execute]
    exact .pure _
  | span l own ih =>
    rw [Inline.execute_span]
    refine .then ?_ fun _ _ _ => .pure _
    exact endsFrom_executeList_of hconfines
      (fun i hmem tags {_} hc => ih i hmem (hi.span hmem) tags hc) _ hc
  | command name kind ps own evaluation ih _ =>
    by_cases he : evaluation = .pending
    case neg =>
      rw [Inline.execute_executed he]
      exact .pure _
    subst he
    have hps : ∀ p ∈ ps, ∀ (tags : Tags) {c}, Guarded c₀ nodes legible k c →
        (p.execute (handleCommands m) scope tags).EndsFrom c :=
      fun p hmem tags {_} hc => ih p hmem (hi.parameter hmem) tags hc
    rcases ho : kind.resolvesOwnParameters with _ | _
    · rw [Inline.execute_command ps own ho]
      refine .within (.then (endsFrom_executeList_of hconfines hps _ hc) fun out c₁ h₁ => ?_) _
      exact .then (endsFrom_run_of_executed hconfines hcircle hh hi hc h₁) fun _ _ _ => .pure _
    · rcases Inline.execute_ownParameters name ps own ho with
        ⟨condition, yes, no, rfl, rfl⟩ | ⟨tag, body, rfl, rfl⟩ | ⟨cause, hfail⟩
      · rw [Inline.execute]
        refine .within (.then (hps condition (by simp) _ hc) fun out c₁ h₁ => ?_) _
        have hc₁ := (staysGuarded_execute hconfines h₁).2 k hc
        obtain ⟨hpresents, hhas⟩ := presents_of_executed hconfines hcircle hi ho hc h₁
        refine .then (Invocation.endsFrom_conditionValue _ hpresents fun t ht =>
          hhas t (Inline.target?_mem_targets ht)) fun value c₂ hvalue => ?_
        obtain ⟨rfl, -⟩ := Invocation.gives_conditionValue_ok hvalue
        cases value
        · exact .then (hps no (by simp) _ hc₁) fun _ _ _ => .pure _
        · exact .then (hps yes (by simp) _ hc₁) fun _ _ _ => .pure _
      · rw [Inline.execute]
        refine .within (.then (hps tag (by simp) _ hc) fun out c₁ h₁ => ?_) _
        have hc₁ := (staysGuarded_execute hconfines h₁).2 k hc
        obtain ⟨hpresents, -⟩ := presents_of_executed hconfines hcircle hi ho hc h₁
        refine endsFrom_text_bind hpresents fun s _ => ?_
        refine Invocation.endsFrom_languageOf_bind _ s fun language => ?_
        exact .then (hps body (by simp) _ hc₁) fun _ _ _ => .pure _
      · rw [hfail]
        exact .within (.fail _) _

/-! ## Command passes that end -/

variable (hrenders : ∀ {x y}, nodes x → c₀.Mentions Inline.Renders x y → legible y)
include hrenders

omit hcircle hh in
/-- What stands in an unread text of a node runs the passes of nodes and renders what is
    legible. -/
theorem accords_of_parse {d : Definition} {content : Content} {l : List Inline} (hid : nodes id)
    (hc : Guarded c₀ nodes legible k c) (hd : c.definition? id = some d)
    (hmem : content ∈ d.kind.contents) (hunparsed : content.stage = .unparsed)
    (hl : Markup.parse c.commands content.source = .ok l) {i : Inline} (hi : i ∈ l) :
    c₀.Accords nodes legible { owner := id, document := d.document } i where
  fresh := Markup.isFresh_of_mem_parse hl i hi
  calls _ hkey _ hy := hconfines.handles hid
    (Or.inr (Or.inr (hc.confined.mentions hd hmem hunparsed hl hi hkey hy)))
  reads _ hkey _ hy :=
    hconfines.reads hid (hc.confined.mentions hd hmem hunparsed hl hi hkey hy)
  renders _ hkey _ hy := hrenders hid (hc.confined.mentions hd hmem hunparsed hl hi hkey hy)

/-- The handling of a text of a node ends. -/
theorem endsFrom_resolveContent {d : Definition} {content : Content} (hid : nodes id)
    (hc : Guarded c₀ nodes legible k c) (hd : c.definition? id = some d)
    (hmem : content ∈ d.kind.contents) :
    (resolveContent (handleCommands m) id content).EndsFrom c := by
  by_cases hunparsed : content.stage = .unparsed
  case neg =>
    rw [resolveContent_of_isHandled _ _ hunparsed]
    exact .pure _
  unfold resolveContent
  rw [hunparsed]
  refine .then ?_ fun _ _ _ => ⟨_, _, rfl⟩
  refine .get_bind (.ofExcept_bind fun written hwritten => ?_)
  refine .ofOption_bind (hc.linked.effectiveTags? (has_iff.2 ⟨d, hd⟩)) fun tags _ => ?_
  refine .definition_bind hd (.then ?_ fun _ _ _ => .modify_bind (.pure _))
  refine endsFrom_executeList_of hconfines (fun i hi tags {_} hc' => ?_) _ hc
  exact endsFrom_execute hconfines hcircle hh i
    (accords_of_parse hconfines hrenders hid hc hd hmem hunparsed hwritten hi) tags hc'

/-- The command pass of a node ends if those of the nodes that it goes on to do. -/
theorem endsFrom_commandPass (hid : nodes id) (hc : Guarded c₀ nodes legible k c)
    (hhas : c.Has id) : (commandPass (handleCommands m) id).EndsFrom c := by
  obtain ⟨d, hd⟩ := has_iff.1 hhas
  have hcontent : ∀ content ∈ d.kind.contents,
      (resolveContent (handleCommands m) id content).EndsFrom c := fun content hmem =>
    endsFrom_resolveContent hconfines hcircle hh hrenders hid hc hd hmem
  refine .definition_bind hd ?_
  split
  case h_1 content hk | h_2 content hk =>
    exact hcontent content (by simp [hk, DefinitionKind.contents])
  case h_3 body hk =>
    have hparts : ∀ {c₁}, StaysGuarded c₀ nodes legible c c₁ →
        (runAll (body.children.map (handleCommands m))).EndsFrom c₁ := by
      intro c₁ hc₁
      refine Answers.endsFrom (I := StaysGuarded c₀ nodes legible c) (.runAll fun y hy => ?_) hc₁
      intro c₂ hc₂
      have hy : y ∈ d.kind.children := by simp [hk, DefinitionKind.children, hy]
      have hnode := hc.confined.parts hid hd (Or.inl hy)
      have hhas := hc.linked.links hd y (DefinitionKind.mem_links_of_child hy)
      obtain ⟨r, c₃, h⟩ := hh y hnode (hc₂.2 k hc) (hc₂.1.has hhas)
      exact ⟨r, c₃, h, (composes_staysGuarded c₀ nodes legible).trans hc₂
        (staysGuarded_handleCommands hconfines m y _ _ _ h)⟩
    rcases ht : body.title with _ | title
    · exact hparts ((composes_staysGuarded c₀ nodes legible).refl c)
    · have hmem : title ∈ d.kind.contents := by simp [hk, DefinitionKind.contents, ht]
      obtain ⟨r, c₁, h⟩ := hcontent title hmem
      exact .runAll_cons h (hparts (staysGuarded_resolveContent hconfines m hd hmem h))
  case h_4 reference hk =>
    split
    · rename_i target ht
      have htarget : d.kind.target? = some target := by rw [hk]; exact ht
      refine hh target (hc.confined.parts hid hd (Or.inr htarget)) hc (hc.linked.links hd target ?_)
      exact DefinitionKind.mem_links.2 (Or.inr (Or.inr htarget))
    · rename_i hnone
      refine .get_bind (.definition_bind hd (.ofExcept_bind fun target hl => .modify_bind ?_))
      replace hl := lookup?_of_lookup hl
      obtain ⟨hextends, hguarded⟩ := staysGuarded_setTarget hconfines hd hk hnone hl
      refine hh target ?_ (hguarded k hc) (hextends.has (hc.linked.lookup? hl))
      exact (hc.confined.setTarget hconfines hd hk hnone hl).1 hid
  all_goals exact .pure _

end

section
variable {n : Nat} (hconfines : c₀.Confines nodes legible)
  (hcircle : ∀ y, legible y → ¬ c₀.IsCircular y)
  (hrenders : ∀ {x y}, nodes x → c₀.Mentions Inline.Renders x y → legible y)
  (hlimit : c₀.settings.depthLimit = some n)
include hconfines hcircle hrenders hlimit

/-- The command pass of a node ends if it is refused or those that it goes on to end. -/
theorem endsFrom_handleCommands_succ
    (hh : k < n → ∀ y, nodes y → ∀ {c}, Guarded c₀ nodes legible (k + 1) c → c.Has y →
      (handleCommands m y).EndsFrom c)
    (hid : nodes id) (hc : Guarded c₀ nodes legible k c) (hhas : c.Has id) :
    (handleCommands (m + 1) id).EndsFrom c := by
  obtain ⟨d, hd⟩ := has_iff.1 hhas
  refine .definition_bind hd (.nested fun hopen => ?_)
  have hsettings : c.settings.depthLimit = some n := by
    rw [hc.extension.settings]
    exact hlimit
  have hlt : k < n := hc.depth_eq ▸ refusal?_eq_none.1 hopen n hsettings
  rw [hc.depth_eq]
  exact endsFrom_commandPass hconfines hcircle (hh hlt) hrenders hid (hc.atDepth (k + 1)) hhas

/-- **Under a depth limit the command pass of a node ends**, if nothing legible is circular. -/
theorem endsFrom_handleCommands (hid : nodes id) (hc : Guarded c₀ nodes legible k c)
    (hhas : c.Has id) : (handleCommands (n - k + 1) id).EndsFrom c := by
  generalize hj : n - k = j
  induction j generalizing k id c with
  | zero =>
    exact endsFrom_handleCommands_succ hconfines hcircle hrenders hlimit (fun hlt => by omega)
      hid hc hhas
  | succ j ih =>
    exact endsFrom_handleCommands_succ hconfines hcircle hrenders hlimit
      (fun _ y hy {_} hc hhas => ih hy hc hhas (by omega)) hid hc hhas

end

end Rubric
