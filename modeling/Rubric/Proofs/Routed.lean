/-
  Rubric — footnotes that have left their place are converted with their texts.

  The passes come to the nodes they visit by different ways: the command pass
  looks keys up while it executes commands, the font pass goes by what the
  executed commands stand for.  Of a separator that `\lines` is not given, the
  command pass runs the pass, but only its text is kept.

  * `Engine.rel_of_handleCommands`: what holds of every pass that succeeds;
  * `Context.IsQuiet`: no text that a pass may come to has a footnote;
    `footnotes_of_quiet`: then the pass lists none;
  * `Context.Foretells f S c`: what is done in `c` in the definitions of a set is as
    in `f`; `Context.Shelves f S`: a footnote stands in a text of them in `f`;
    **`lists_handleCommands`**: the footnotes that a pass lists stand in texts that
    its node leads to in the end, if all ways end;
  * `Settled.footnote_converted`: a footnote in a settled definition is in Unicode;
  * **`footnotes_converted`**: when both passes have succeeded, all footnotes listed
    are.
-/
import Rubric.Proofs.Agreement
import Rubric.Proofs.Atomic
import Rubric.Proofs.Conversion
import Rubric.Proofs.Independence
import Rubric.Proofs.Keys

namespace Rubric

open Context

variable {c₀ c c' c₁ : Context} {id x : DefinitionId} {nodes legible : DefinitionId → Prop}

/-! ## Passes that a command runs -/

/-- A command whose parameters are executed moves contexts along a relation that allows what
    commands do, if the passes that it runs do so where they succeed. -/
theorem Invocation.rel_of_run {handle : DefinitionId → Engine Unit} {call : Invocation}
    {kind : CommandKind} {ps : List Inline} {effect : Effect} {R : Context → Context → Prop}
    (hR : Permits (fun _ => True) R)
    (hh : ∀ y c₁, c.Handles call.scope.document y kind ps →
      (kind = .definition → effect.output = .definition y) →
      (handle y).Gives (c.addReference y call.scope.owner) (.ok ()) c₁ →
      R (c.addReference y call.scope.owner) c₁)
    (h : (call.run handle kind ps).Gives c (.ok effect) c') : R c c' := by
  have hother : (call.run (fun _ => Engine.endless) kind ps).Gives c (.ok effect) c' → R c c' :=
    run_moves hR (fun _ _ _ _ h => (Engine.gives_endless.1 h).elim) call trivial ps _ _ _
  cases kind
  case definition =>
    cases effects_of_run h with
    | definition hkey hl _ _ hgives =>
      exact hR.trans (hR.reference _ _ _) (hh _ _ ⟨_, _, rfl, hkey, hl⟩ (fun _ => rfl) hgives)
    | value => exact hR.reference _ _ _
    | text hkind => simp at hkind
  case lines =>
    cases effects_of_run h with
    | lines => exact hR.refl _
    | text hkind => simp at hkind
    | defaultLines _ _ hseparator =>
      cases hseparator with
      | settings => exact hR.refl _
      | selected => exact hR.reference _ _ _
      | definition hl _ _ hgives =>
        exact hR.trans (hR.trans (hR.reference _ _ _) (hh _ _ hl nofun hgives)) (hR.warn _ _)
  all_goals exact hother h

/-! ## Passes that succeed -/

namespace Engine

variable {handle : DefinitionId → Engine Unit}

/-- A list of computations that succeeds moves contexts along what each does where it succeeds. -/
theorem rel_of_runAll {R : Context → Context → Prop} (hR : Composes R) {xs : List (Engine Unit)}
    (hx : ∀ x ∈ xs, ∀ {c c'}, x.Gives c (.ok ()) c' → R c c')
    (h : (runAll xs).Gives c (.ok ()) c') : R c c' := by
  induction xs generalizing c with
  | nil =>
    obtain ⟨-, rfl⟩ := gives_pure.1 h
    exact hR.refl c'
  | cons x xs ih =>
    obtain ⟨r₁, c₁, r₂, h₁, h₂, hr⟩ := gives_runAll_cons.1 h
    obtain ⟨rfl, rfl⟩ := firstError_eq_ok.1 hr.symm
    exact hR.trans (hx x (by simp) h₁) (ih (fun y hy => hx y (by simp [hy])) h₂)

/-- The text of a node is handled with success, or there is none that is unread. -/
inductive Handles (handle : DefinitionId → Engine Unit) (id : DefinitionId) (c : Context)
    (d : Definition) : Context → Prop
  | nothing : (∀ content ∈ d.kind.contents, content.IsHandled) → Handles handle id c d c
  | text {content : Content} {written l : List Inline} {tags : Tags} {notes : List Footnote}
      {c₁ : Context} :
      content ∈ d.kind.contents → content.stage = .unparsed →
      Markup.parse c.commands content.source = .ok written → c.effectiveTags? id = some tags →
      (Inline.executeList handle { owner := id, document := d.document } tags written).Gives c
        (.ok (l, notes)) c₁ →
      Handles handle id c d ((c₁.routeFootnotes d.document notes).modifyContent id
        fun content => content.resolveCommands l)

/-- How the command pass of a node succeeds. -/
inductive Succeeds (handle : DefinitionId → Engine Unit) (id : DefinitionId) (c : Context)
    (d : Definition) : Context → Prop
  | parts {c₁ c' : Context} :
      (∀ reference, d.kind ≠ .partReference reference) → Handles handle id c d c₁ →
      (runAll (d.kind.children.map handle)).Gives c₁ (.ok ()) c' → Succeeds handle id c d c'
  | target {reference : PartReference} {target : DefinitionId} {c' : Context} :
      d.kind = .partReference reference → reference.target = some target →
      (handle target).Gives c (.ok ()) c' → Succeeds handle id c d c'
  | found {reference : PartReference} {target : DefinitionId} {c' : Context} :
      d.kind = .partReference reference → reference.target = none →
      c.lookup? reference.targetKey d.document = some target →
      (handle target).Gives ((c.addReference target id).setTarget id target) (.ok ()) c' →
      Succeeds handle id c d c'

theorem handles_of_gives {d : Definition} {content : Content} (hd : c.definition? id = some d)
    (hcontent : content ∈ d.kind.contents)
    (h : (resolveContent handle id content).Gives c (.ok ()) c') : Handles handle id c d c' := by
  rcases gives_resolveContent h with ⟨hhandled, -, rfl⟩ | ⟨hunparsed, r₁, c₂, hsource, hends⟩
  · refine .nothing fun other hother => ?_
    rw [DefinitionKind.contents_eq_of_mem hcontent] at hother
    exact List.mem_singleton.1 hother ▸ hhandled
  rcases hends with ⟨_, -, hr, -⟩ | ⟨l, rfl, -, rfl⟩
  · cases hr
  rcases gives_resolveSource hsource with ⟨_, -, hr, -⟩ |
    ⟨written, tags, d', hwritten, htags, hd', ⟨_, hr, -⟩ | ⟨l, notes, c₁, hr, hl, rfl⟩⟩ <;> cases hr
  cases hd.symm.trans hd'
  exact .text hcontent hunparsed hwritten htags hl

theorem succeeds_of_gives (h : (commandPass handle id).Gives c (.ok ()) c') :
    ∃ d, c.definition? id = some d ∧ Succeeds handle id c d c' := by
  obtain ⟨d, hd, hpass⟩ := gives_commandPass h
  refine ⟨d, hd, ?_⟩
  generalize hr : (Except.ok () : Except Error Unit) = r at hpass
  cases hpass with
  | parts hk htext hparts =>
    obtain ⟨rfl, rfl⟩ := firstError_eq_ok.1 hr.symm
    refine .parts hk ?_ hparts
    rcases htext with ⟨hnone, -, rfl⟩ | ⟨content, hcontent, htext⟩
    · exact .nothing (by rw [hnone]; nofun)
    · exact handles_of_gives hd hcontent htext
  | target hk ht hgives =>
    subst hr
    exact .target hk ht hgives
  | found hk hnone hl hgives =>
    subst hr
    exact .found hk hnone hl hgives
  | missing => cases hr

/-- **What holds of every command pass that succeeds**: it is shown of the pass of one node, from
    those of others. -/
theorem rel_of_handleCommands {R : DefinitionId → Context → Context → Prop}
    (hdepth : ∀ {id} {c c₁ : Context}, R id (c.atDepth (c.depth + 1)) c₁ →
      R id c (c₁.atDepth (c₁.depth - 1)))
    (hpass : ∀ n, (∀ y {c c'}, (handleCommands n y).Gives c (.ok ()) c' → R y c c') →
      ∀ {id c d c'}, c.definition? id = some d → Succeeds (handleCommands n) id c d c' → R id c c')
    (n : Nat) (id : DefinitionId) (h : (handleCommands n id).Gives c (.ok ()) c') : R id c c' := by
  induction n generalizing id c c' with
  | zero => exact (gives_endless.1 h).elim
  | succ n ih =>
    rw [handleCommands, gives_definition_bind] at h
    obtain ⟨d, -, h⟩ := h
    rcases gives_nested h with ⟨limit, -, -, hr, -⟩ | ⟨r, c₁, h, hr, rfl⟩
    · cases hr
    obtain rfl : r = .ok () := mapError_eq_ok.1 hr.symm
    obtain ⟨d, hd, hsucceeds⟩ := succeeds_of_gives h
    exact hdepth (hpass n (fun y _ _ => ih y) hd hsucceeds)

end Engine

/-! ## Quiet passes -/

/-- No text that the command pass of the definition may come to has a footnote. -/
def Context.IsQuiet (c : Context) (id : DefinitionId) : Prop :=
  ∀ x, Relation.ReflTransGen c.MayHandle id x → ∀ d, c.definition? x = some d →
    ∀ content ∈ d.kind.contents, ∀ l, Markup.parse c.commands content.source = .ok l →
      ∀ i ∈ l, i.Uses (· ≠ .footnote)

/-- The pass of a stanza of plain text comes to nothing else. -/
theorem Context.isQuiet_of_run {d : Definition} {content : Content} {text : String} {own : Tags}
    (hd : c.definition? id = some d) (hk : d.kind = .stanza content)
    (hparse : Markup.parse c.commands content.source = .ok [.run text own]) : c.IsQuiet id := by
  have hread : ∀ content ∈ d.kind.contents, ∀ l, Markup.parse c.commands content.source = .ok l →
      l = [.run text own] := by
    rw [hk]
    intro content hcontent l hl
    rw [List.mem_singleton.1 hcontent, hparse] at hl
    cases hl
    rfl
  have hend : ∀ x, ¬ c.MayHandle id x := by
    rintro x (⟨d', hd', hx⟩ | ⟨d', reference, hd', hreference, -⟩ |
      ⟨d', content', l, i, key, hd', hcontent', -, hl, hi, hkey, -⟩) <;> cases hd.symm.trans hd'
    · rw [hk] at hx
      rcases hx with hx | hx <;> cases hx
    · rw [hk] at hreference
      cases hreference
    · rw [hread content' hcontent' l hl, List.mem_singleton] at hi
      rw [hi] at hkey
      exact Inline.not_has_run text own hkey
  intro x hx d' hd' content' hcontent' l hl i hi
  obtain rfl : id = x := by
    rcases hx.cases_head with h | ⟨y, hy, -⟩
    · exact h
    · exact absurd hy (hend y)
  cases hd.symm.trans hd'
  rw [hread content' hcontent' l hl, List.mem_singleton] at hi
  rw [hi]
  intro j hj
  rw [Inline.nested, List.mem_singleton] at hj
  rw [hj]
  rintro kind ⟨⟩

/-- Of the footnotes that are listed between the contexts `P` holds. -/
def Context.Lists (P : Option DocumentId → Footnote → Prop) (c c' : Context) : Prop :=
  ∀ document, ∀ note ∈ c'.footnotes document, note ∈ c.footnotes document ∨ P document note

section
variable {P Q : Option DocumentId → Footnote → Prop}

theorem composes_lists (P : Option DocumentId → Footnote → Prop) : Engine.Composes (Lists P) where
  refl _ _ _ := Or.inl
  trans h h' document note hnote := (h' document note hnote).elim (h document note) Or.inr

theorem Context.LeavesNotes.lists (h : LeavesNotes c c') : Lists P c c' :=
  fun document _ hnote => Or.inl (h.footnotes document ▸ hnote)

theorem permits_lists (P : Option DocumentId → Footnote → Prop) :
    Permits (fun _ => True) (Lists P) :=
  permits_leavesNotes.mono (composes_lists P) fun h => h.lists

theorem Context.Lists.mono (h : Lists P c c')
    (hPQ : ∀ document note, P document note → Q document note) : Lists Q c c' :=
  fun document note hnote => (h document note hnote).imp_right (hPQ document note)

theorem Context.Lists.atDepth {depth depth' : Nat} (h : Lists P (c.atDepth depth) c₁) :
    Lists P c (c₁.atDepth depth') := by
  have hdepth : ∀ (c : Context) depth, Lists P c (c.atDepth depth) :=
    fun c depth => (LeavesNotes.of_eq rfl rfl rfl).lists
  have hP := composes_lists P
  exact hP.trans (hdepth c depth) (hP.trans h (hdepth c₁ depth'))

/-- A text is handled, and its footnotes leave their place. -/
theorem lists_handle {document : Option DocumentId} {notes : List Footnote} {l : List Inline}
    (h : Lists P c c₁) (hnotes : ∀ note ∈ notes, P document note) :
    Lists P c ((c₁.routeFootnotes document notes).modifyContent id
      fun content => content.resolveCommands l) := by
  refine (composes_lists P).trans h fun d note hnote => ?_
  replace hnote : note ∈ (c₁.routeFootnotes document notes).footnotes d := by
    cases d <;> exact hnote
  rcases footnoteList_modifyFootnotes_cases c₁ document _ d with hlist | ⟨rfl, hlist⟩ <;>
    rw [routeFootnotes, footnotes, hlist] at hnote
  · exact Or.inl hnote
  · exact (List.mem_append.1 hnote).imp_right (hnotes note)

end

section
variable {P : Option DocumentId → Footnote → Prop} (hconfines : c₀.Confines nodes fun _ => True)
  (hquiet : ∀ x, nodes x → ∀ d, c₀.definition? x = some d → ∀ content ∈ d.kind.contents,
    ∀ l, Markup.parse c₀.commands content.source = .ok l → ∀ i ∈ l, i.Uses (· ≠ .footnote))

section
variable {handle : DefinitionId → Engine Unit}
  (hconfined : ∀ id, (handle id).Moves fun c c' =>
    Confined c₀ nodes (fun _ => True) c → Confined c₀ nodes (fun _ => True) c')
  (hh : ∀ y, nodes y → ∀ {c c'}, Confined c₀ nodes (fun _ => True) c →
    (handle y).Gives c (.ok ()) c' → Lists P c c')
include hconfined hh

/-- Execution gives no footnotes and lists none, if there are no footnotes in the text nor in those
    that it comes to. -/
theorem quiet_rules (scope : Scope) : Inline.ExecutionRules handle scope
    (fun _ i c i' notes c' => Confined c₀ nodes (fun _ => True) c →
      c₀.Suits nodes (fun _ => True) scope i → i.Uses (· ≠ .footnote) →
        (Confined c₀ nodes (fun _ => True) c' ∧
          Inline.Yields c₀ (fun _ => True) scope.document i i') ∧ Lists P c c' ∧ notes = [])
    (fun _ l c l' notes c' => Confined c₀ nodes (fun _ => True) c →
      (∀ i ∈ l, c₀.Suits nodes (fun _ => True) scope i) → (∀ i ∈ l, i.Uses (· ≠ .footnote)) →
        (Confined c₀ nodes (fun _ => True) c' ∧
          List.Forall₂ (Inline.Yields c₀ (fun _ => True) scope.document) l l') ∧
            Lists P c c' ∧ notes = []) := by
  have hyields := yields_rules hconfined scope
  have hR := permits_lists P
  refine ⟨?run, ?span, ?executed, ?ternary, ?language, ?command, ?nil, ?cons⟩
  case run =>
    intro tags text own c hc hi _
    exact ⟨hyields.run tags text own c hc hi.fresh, hR.refl c, rfl⟩
  case span =>
    intro tags l own c l' notes c' ih hc hi huses
    obtain ⟨hl, hkeeps⟩ := ih hc (fun j hj => hi.span hj) huses.of_span
    exact ⟨hyields.span tags l own c l' notes c' (fun _ _ => hl) hc hi.fresh, hkeeps⟩
  case executed =>
    intro tags name kind parameters own evaluation c he _ hi
    exact absurd (Inline.isFresh_command.1 hi.fresh).2.1 he
  case ternary =>
    intro tags name condition yes no own c condition' notes c₁ value chosen more c' ihc hvalue ihb
      hc hi huses
    have hps := huses.of_command.2
    obtain ⟨hcondition, hkeeps, rfl⟩ := ihc hc (hi.parameter (by simp)) (hps _ (by simp))
    obtain ⟨hchosen, hkeeps', rfl⟩ := ihb hcondition.1
      (by cases value <;> exact hi.parameter (by simp)) (by cases value <;> exact hps _ (by simp))
    exact ⟨hyields.ternary tags name condition yes no own c condition' [] c₁ value chosen [] c'
      (fun _ _ => hcondition) hvalue (fun _ _ => hchosen) hc hi.fresh, hR.trans hkeeps hkeeps', rfl⟩
  case language =>
    intro tags name tag body own c tag' notes c₁ language body' more c' iht ihb hc hi huses
    have hps := huses.of_command.2
    obtain ⟨htag, hkeeps, rfl⟩ := iht hc (hi.parameter (by simp)) (hps _ (by simp))
    obtain ⟨hbody, hkeeps', rfl⟩ := ihb htag.1 (hi.parameter (by simp)) (hps _ (by simp))
    exact ⟨hyields.language tags name tag body own c tag' [] c₁ language body' [] c'
      (fun _ _ => htag) (fun _ _ => hbody) hc hi.fresh, hR.trans hkeeps hkeeps', rfl⟩
  case command =>
    intro tags name kind ps own c ps' notes c₁ effect c' ho ihp hrun hc hi huses
    obtain ⟨hps, hkeeps, rfl⟩ := ihp hc (fun p hp => hi.parameter hp) huses.of_command.2
    have hkeeps' : Lists P c₁ c' := by
      refine Invocation.rel_of_run hR (fun y c₂ hy _ hgives => ?_) hrun
      have hnode : nodes y := hi.handles hps.1 hps.2 hy
      exact hh y hnode (hps.1.of_core_eq (c₁.core_addReference y _)) hgives
    refine ⟨hyields.command tags name kind ps own c ps' [] c₁ effect c' ho (fun _ _ => hps) hrun hc
      hi.fresh, hR.trans hkeeps hkeeps', ?_⟩
    cases Invocation.effects_of_run hrun with
    | footnote => exact absurd rfl huses.of_command.1
    | _ => rfl
  case nil =>
    intro tags c hc _ _
    exact ⟨⟨hc, .nil⟩, hR.refl c, rfl⟩
  case cons =>
    intro tags i l c i' notes c₁ l' more c' ihi ihl hc hl huses
    obtain ⟨hi, hkeeps, rfl⟩ := ihi hc (hl i (by simp)) (huses i (by simp))
    obtain ⟨hrest, hkeeps', rfl⟩ := ihl hi.1 (fun j hj => hl j (by simp [hj]))
      fun j hj => huses j (by simp [hj])
    exact ⟨⟨hrest.1, .cons hi.2 hrest.2⟩, hR.trans hkeeps hkeeps', rfl⟩

end

include hconfines hquiet

/-- **A pass that comes to no footnotes lists none.** -/
theorem footnotes_of_quiet (n : Nat) (hid : nodes id) (hc : Confined c₀ nodes (fun _ => True) c)
    (h : (Engine.handleCommands n id).Gives c (.ok ()) c') : Lists P c c' := by
  have hR := permits_lists P
  refine Engine.rel_of_handleCommands
    (R := fun id c c' => nodes id → Confined c₀ nodes (fun _ => True) c → Lists P c c')
    (fun {id c c₁} h hid hc => ?depth) (fun n ih {id c d c'} hd hsucceeds hid hc' => ?pass)
    n id h hid hc
  case depth =>
    exact (h hid (hc.of_core_eq (c.core_atDepth _))).atDepth
  case pass =>
    have hconfined := confined_handleCommands hconfines n
    have hnode : ∀ y, nodes y → ∀ {c c'}, Confined c₀ nodes (fun _ => True) c →
        (Engine.handleCommands n y).Gives c (.ok ()) c' → Lists P c c' :=
      fun y hy _ _ hc h => ih y h hy hc
    cases hsucceeds with
    | @parts c₁ _ _ htext hparts =>
      have htext : Confined c₀ nodes (fun _ => True) c₁ ∧ Lists P c c₁ := by
        cases htext with
        | nothing => exact ⟨hc', hR.refl c⟩
        | @text content written l tags notes c₂ hcontent hunparsed hwritten _ hl =>
          have hwritten' : Markup.parse c₀.commands content.source = .ok written :=
            hc'.commands ▸ hwritten
          obtain ⟨d₀, hd₀, hkind⟩ : ∃ d₀, c₀.definition? id = some d₀ ∧ d₀.kind = d.kind := by
            rcases hc'.origin hd with ⟨hhandled, -⟩ | ⟨d₀, hd₀, -, hkind⟩
            · exact absurd hunparsed (hhandled content hcontent)
            · exact ⟨d₀, hd₀, hkind⟩
          obtain ⟨⟨hc₂, -⟩, hkeeps, rfl⟩ := (quiet_rules hconfined hnode _).inlines hl hc'
            (fun i hi => {
              fresh := Markup.isFresh_of_mem_parse hwritten i hi
              calls := fun _ hkey _ hy => hconfines.handles hid
                (Or.inr (Or.inr (hc'.mentions hd hcontent hunparsed hwritten hi hkey hy)))
              reads := fun _ _ _ _ => trivial })
            (hquiet id hid d₀ hd₀ content (hkind ▸ hcontent) written hwritten')
          exact ⟨(hc₂.of_core_eq (c₂.core_modifyFootnotes _ _)).resolveCommands
            fun _ _ _ => trivial, lists_handle hkeeps (by simp)⟩
      -- the parts are nodes, too, as they have been from the start
      refine hR.trans htext.2 (Engine.rel_of_runAll
        (R := fun c c' => Confined c₀ nodes (fun _ => True) c →
          Confined c₀ nodes (fun _ => True) c' ∧ Lists P c c')
        ⟨fun c hc => ⟨hc, hR.refl c⟩, fun h h' hc =>
          ⟨(h' (h hc).1).1, hR.trans (h hc).2 (h' (h hc).1).2⟩⟩
        (fun x hx {c c'} h hc => ?_) hparts htext.1).2
      obtain ⟨child, hchild, rfl⟩ := List.mem_map.1 hx
      exact ⟨hconfined child _ _ _ h hc, hnode child (hc'.parts hid hd (Or.inl hchild)) hc h⟩
    | target hk ht hgives =>
      refine hnode _ (hc'.parts hid hd (Or.inr ?_)) hc' hgives
      rw [hk]; exact ht
    | found hk hnone hl hgives =>
      obtain ⟨htarget, hc₁⟩ := hc'.setTarget hconfines hd hk hnone hl
      refine hR.trans ?_ (hnode _ (htarget hid) hc₁ hgives)
      exact ((LeavesNotes.addReference _ _ _).trans (.setTarget _ _ _)).lists

end

/-! ## What stands in a text -/

namespace Inline

/-- The footnotes that execution gives stand in what becomes of the inlines. -/
theorem given_rules {handle : DefinitionId → Engine Unit} (scope : Scope) :
    ExecutionRules handle scope (fun _ _ _ i' notes _ => notes ⊆ footnotes [i'])
      (fun _ _ _ l' notes _ => notes ⊆ footnotes l') := by
  have hcommand : ∀ {name kind} {ps : List Inline} {own evaluation} {notes : List Footnote},
      notes ⊆ footnotes ps → notes ⊆ footnotes [command name kind ps own evaluation] := by
    intro name kind ps own evaluation notes h note hnote
    rw [footnotes_command]
    exact List.mem_append_right _ (List.mem_append_left _ (h hnote))
  have hmem : ∀ {i : Inline} {l : List Inline} {notes : List Footnote}, i ∈ l →
      notes ⊆ footnotes [i] → notes ⊆ footnotes l :=
    fun hi h note hnote => mem_footnotes_iff.2 ⟨_, hi, h hnote⟩
  refine ⟨?run, ?span, ?executed, ?ternary, ?language, ?command, ?nil, ?cons⟩
  case run | executed | nil => intros; exact List.nil_subset _
  case span =>
    intro tags l own c l' notes c' h
    rw [footnotes_span]
    exact h
  case ternary =>
    intro _ _ _ _ _ _ _ condition' _ _ value chosen _ _ hcondition _ hchosen
    refine hcommand (List.append_subset.2 ⟨hmem (by simp) hcondition, hmem ?_ hchosen⟩)
    cases value <;> simp
  case language =>
    intro _ _ _ _ _ _ _ _ _ _ _ _ _ htag hbody
    exact hcommand (List.append_subset.2 ⟨hmem (by simp) htag, hmem (by simp) hbody⟩)
  case command =>
    intro _ _ _ _ _ _ _ _ _ effect _ _ hps _
    refine List.append_subset.2 ⟨hcommand hps, fun note hnote => ?_⟩
    rw [footnotes_command]
    refine List.mem_append_left _ ?_
    rcases effect with ⟨output, _ | footnote⟩
    · cases hnote
    · exact hnote
  case cons =>
    intro _ i _ _ i' _ _ l' _ _ hi hl
    rw [footnotes_cons]
    exact List.append_subset.2 ⟨fun _ h => List.mem_append_left _ (hi h),
      fun _ h => List.mem_append_right _ (hl h)⟩

end Inline

/-! ## What texts lead to in the end -/

namespace DefinitionKind.Advances

variable {kind kind' : DefinitionKind} (h : kind.Advances kind')
include h

theorem eq_of_isDone (hdone : kind.IsDone .commands) : kind' = kind := by
  cases h with
  | contents hf =>
    exact mapContents_eq_self fun content hcontent =>
      (hf content hcontent).eq_of_isHandled (hdone.1 content hcontent)
  | target target hnone =>
    have hsome := hdone.2 _ rfl
    rw [hnone] at hsome
    cases hsome

theorem children_eq : kind'.children = kind.children := by
  cases h with
  | contents => exact children_mapContents _ _
  | target => rfl

theorem isAimed (haimed : kind.IsAimed) : kind'.IsAimed := by
  cases h with
  | contents => exact isAimed_mapContents.2 haimed
  | target =>
    rintro _ ⟨⟩
    rfl

/-- What becomes of a text. -/
theorem exists_later {content : Content} (hcontent : content ∈ kind.contents) :
    ∃ content', content' ∈ kind'.contents := by
  cases h with
  | @contents _ f =>
    rw [contents_mapContents]
    exact ⟨f content, List.mem_map_of_mem hcontent⟩
  | target => exact ⟨content, hcontent⟩

end DefinitionKind.Advances

namespace Context

/-- The definition is one that `id` leads to over one link at least. -/
def LeadsTo (c : Context) (id x : DefinitionId) : Prop :=
  Relation.TransGen c.Links id x

/-- No definition that `id` leads to leads back to itself. -/
def AllWaysEnd (c : Context) (id : DefinitionId) : Prop :=
  ∀ x, c.Reaches id x → ¬ c.LeadsTo x x

/-- What is done in `c` in the definitions of a set is as in `f`. -/
def Foretells (f : Context) (S : DefinitionId → Prop) (c : Context) : Prop :=
  ∀ x, S x → ∀ d, c.definition? x = some d → d.kind.IsDone .commands →
    ∃ d', f.definition? x = some d' ∧ d'.document = d.document ∧ d'.kind = d.kind

/-- The footnote stands in a text of the document, in one of the definitions of a set. -/
def Shelves (f : Context) (S : DefinitionId → Prop) (document : Option DocumentId)
    (note : Footnote) : Prop :=
  ∃ x d, S x ∧ f.definition? x = some d ∧ d.document = document ∧ note ∈ d.kind.notes

variable {f : Context} {S T : DefinitionId → Prop}

theorem Foretells.mono (h : f.Foretells T c) (hST : ∀ x, S x → T x) : f.Foretells S c :=
  fun x hx => h x (hST x hx)

theorem Foretells.of_extends (h : f.Foretells S c') (he : Extends c c') : f.Foretells S c := by
  intro x hx d hd hdone
  obtain ⟨references, kind, hd', -, hk⟩ := he.old hd
  obtain rfl := hk.eq_of_isDone hdone
  obtain ⟨d', hd', hdocument, hkind⟩ := h x hx _ hd' hdone
  exact ⟨d', hd', hdocument, hkind⟩

/-- A part reference leads to its target. -/
theorem Foretells.links_target (h : f.Foretells (f.Reaches id) c) {d : Definition}
    {reference : PartReference} {target : DefinitionId} (hd : c.definition? id = some d)
    (hk : d.kind = .partReference reference) (ht : reference.target = some target) :
    f.Links id target := by
  have hdone : d.kind.IsDone .commands := by
    rw [hk]
    refine ⟨by simp [DefinitionKind.contents], ?_⟩
    rintro _ ⟨⟩
    rw [ht]; rfl
  obtain ⟨d', hd', -, hkind⟩ := h id .refl d hd hdone
  exact ⟨d', hd', DefinitionKind.mem_links_of_target (by rw [hkind, hk]; exact ht)⟩

theorem Shelves.mono {document : Option DocumentId} {note : Footnote}
    (h : f.Shelves S document note) (hST : ∀ x, S x → T x) : f.Shelves T document note := by
  obtain ⟨x, d, hx, hd⟩ := h
  exact ⟨x, d, hST x hx, hd⟩

/-- Between the contexts nothing is lost, and if what is done in the second one is as in `f`, then
    the footnotes that are listed in between stand in texts of the set in `f`. -/
structure Accounts (c₀ f : Context) (nodes S : DefinitionId → Prop) (c c' : Context) : Prop where
  extension : Extends c c'
  confined : Confined c₀ nodes (fun _ => True) c → Confined c₀ nodes (fun _ => True) c'
  lists : Confined c₀ nodes (fun _ => True) c → f.Foretells S c' → Lists (f.Shelves S) c c'

theorem composes_accounts (c₀ f : Context) (nodes S : DefinitionId → Prop) :
    Engine.Composes (Accounts c₀ f nodes S) where
  refl c := ⟨.refl c, fun hc => hc, fun _ _ => (composes_lists _).refl c⟩
  trans h h' := {
    extension := h.extension.trans h'.extension
    confined := fun hc => h'.confined (h.confined hc)
    lists := fun hc hf => (composes_lists _).trans (h.lists hc (hf.of_extends h'.extension))
      (h'.lists (h.confined hc) hf) }

theorem permits_accounts (c₀ f : Context) (nodes S : DefinitionId → Prop) :
    Permits (fun _ => True) (Accounts c₀ f nodes S) :=
  (permits_extends.and ((permits_confined c₀ nodes fun _ => True).and (permits_lists _))).mono
    (composes_accounts c₀ f nodes S) fun ⟨hextends, hconfined, hlists⟩ =>
      ⟨hextends, hconfined, fun _ _ => hlists⟩

end Context

section
variable {f : Context} (hconfines : c₀.Confines nodes fun _ => True)
  (hquiet : ∀ x, nodes x → ∀ d, c₀.definition? x = some d → ∀ content ∈ d.kind.contents,
    ∀ l, Markup.parse c₀.commands content.source = .ok l → ∀ i ∈ l, i.Uses (· ≠ .footnote))
  (hseparator : ∀ document y, c₀.lookup? Invocation.separatorKey document = some y → nodes y)
include hconfines hquiet hseparator

/-- Execution lists the footnotes that the passes list which it runs, of definitions that its
    commands stand for in the end.  The separator is not recorded, but its pass lists none. -/
theorem accounts_rules (n : Nat) {links S : DefinitionId → Prop}
    (hh : ∀ y, links y → ∀ {c c'}, (Engine.handleCommands n y).Gives c (.ok ()) c' →
      Accounts c₀ f nodes S c c') (scope : Scope) :
    Inline.ExecutionRules (Engine.handleCommands n) scope
      (fun _ _ c i' _ c' => (∀ t ∈ Inline.targets [i'], links t) → Accounts c₀ f nodes S c c')
      (fun _ _ c l' _ c' => (∀ t ∈ Inline.targets l', links t) → Accounts c₀ f nodes S c c') := by
  have hR := permits_accounts c₀ f nodes S
  have hps : ∀ {name kind} {ps : List Inline} {own evaluation},
      (∀ t ∈ Inline.targets [.command name kind ps own evaluation], links t) →
        ∀ t ∈ Inline.targets ps, links t := by
    intro name kind ps own evaluation h t ht
    refine h t ?_
    rw [Inline.targets_command]
    exact List.mem_append_right _ (List.mem_append_left _ ht)
  have hmem : ∀ {i : Inline} {l : List Inline}, i ∈ l → (∀ t ∈ Inline.targets l, links t) →
      ∀ t ∈ Inline.targets [i], links t :=
    fun hi h t ht => h t (Inline.mem_targets_iff.2 ⟨_, hi, ht⟩)
  refine ⟨?run, ?span, ?executed, ?ternary, ?language, ?command, ?nil, ?cons⟩
  case run | executed | nil => intros; exact hR.refl _
  case span =>
    intro tags l own c l' notes c' h htargets
    rw [Inline.targets_span] at htargets
    exact h htargets
  case ternary =>
    intro _ _ _ _ _ _ _ _ _ _ value chosen _ _ ihc _ ihb htargets
    have htargets := hps htargets
    refine hR.trans (ihc (hmem (by simp) htargets)) (ihb (hmem ?_ htargets))
    cases value <;> simp
  case language =>
    intro _ _ _ _ _ _ _ _ _ _ _ _ _ iht ihb htargets
    have htargets := hps htargets
    exact hR.trans (iht (hmem (by simp) htargets)) (ihb (hmem (by simp) htargets))
  case command =>
    intro tags name kind ps own c ps' notes c₁ effect c' _ ihp hrun htargets
    refine hR.trans (ihp (hps htargets)) (Invocation.rel_of_run hR (fun y c₂ hy hdef h => ?_) hrun)
    cases kind
    case definition =>
      refine hh y (htargets y ?_) h
      have houtput : (Evaluation.of effect.output effect.footnote).output? =
          some (.definition y) := by
        rw [← hdef rfl]
        rcases effect with ⟨output, _ | _⟩ <;> rfl
      rw [Inline.targets_command, Inline.target?_of_output? houtput]
      exact List.mem_append_left _ (List.mem_singleton_self y)
    case lines =>
      refine ⟨extends_handleCommands n y _ _ _ h, confined_handleCommands hconfines n y _ _ _ h,
        fun hc _ => ?_⟩
      have hl : (c₁.addReference y scope.owner).lookup? Invocation.separatorKey scope.document =
          some y := by
        rw [lookup?_of_core_eq (c₁.core_addReference y scope.owner)]
        exact hy
      exact footnotes_of_quiet hconfines hquiet n
        (hc.found (fun _ => And.left) (hseparator scope.document) hl) hc h
    all_goals exact hy.elim
  case cons =>
    intro _ i _ _ i' _ _ l' _ _ ihi ihl htargets
    exact hR.trans (ihi (hmem (by simp) htargets)) (ihl fun t ht => htargets t (by
      obtain ⟨j, hj, ht⟩ := Inline.mem_targets_iff.1 ht
      exact Inline.mem_targets_iff.2 ⟨j, by simp [hj], ht⟩))

/-- Handling the text of a node lists footnotes that stand in it, and those that the passes list
    which its commands run, if these list none but what stands below the node. -/
theorem lists_handles (n : Nat) {d : Definition}
    (hh : ∀ y, f.Links id y → ∀ {c c'}, (Engine.handleCommands n y).Gives c (.ok ()) c' →
      Accounts c₀ f nodes (f.LeadsTo id) c c')
    (hends : ¬ f.LeadsTo id id) (hd : c.definition? id = some d)
    (hk : ∀ reference, d.kind ≠ .partReference reference)
    (hc : Confined c₀ nodes (fun _ => True) c)
    (h : Engine.Handles (Engine.handleCommands n) id c d c₁) (hf : f.Foretells (f.Reaches id) c₁) :
    Confined c₀ nodes (fun _ => True) c₁ ∧ Lists (f.Shelves (f.Reaches id)) c c₁ ∧
      ∃ d', f.definition? id = some d' ∧ d'.kind.children = d.kind.children := by
  have haimed := DefinitionKind.isAimed_of_not_reference hk
  cases h with
  | nothing hhandled =>
    obtain ⟨d', hd', -, hkind⟩ := hf id .refl d hd ⟨hhandled, haimed.1⟩
    exact ⟨hc, (composes_lists _).refl c, d', hd', by rw [hkind]⟩
  | @text content written l tags notes c₂ hcontent hunparsed hwritten _ hl =>
    have hextends : Extends c c₂ := Inline.executeList_moves permits_extends
      (extends_handleCommands n) written (fun _ _ => Inline.uses_all) tags _ _ _ hl
    obtain ⟨references, kind, hd₂, -, hadvances⟩ := hextends.old hd
    -- what the text has become stays, so it is in `f`, and what its commands stand for is below it
    have hd₁ : ((c₂.routeFootnotes d.document notes).modifyContent id fun content =>
        content.resolveCommands l).definition? id = some { d with
          references, kind := kind.mapContents fun content => content.resolveCommands l } :=
      definition?_modifyContent ((definition?_modifyFootnotes ..).trans hd₂) _
    have hchildren : (kind.mapContents fun content => content.resolveCommands l).children =
        d.kind.children := by
      rw [DefinitionKind.children_mapContents, hadvances.children_eq]
    obtain ⟨content', hcontent'⟩ := hadvances.exists_later hcontent
    have htext : content'.resolveCommands l ∈
        (kind.mapContents fun content => content.resolveCommands l).contents := by
      rw [DefinitionKind.contents_mapContents]
      exact List.mem_map_of_mem hcontent'
    have hdone : (kind.mapContents fun content => content.resolveCommands l).IsDone
        .commands := by
      refine ⟨fun text htext => ?_,
        DefinitionKind.isAimed_mapContents.2 (hadvances.isAimed haimed.1)⟩
      obtain ⟨old, -, rfl⟩ := DefinitionKind.mem_contents_mapContents.1 htext
      exact old.isHandled_resolveCommands l
    obtain ⟨d', hd', hdocument, hkind⟩ := hf id .refl _ hd₁ hdone
    have htargets : ∀ t ∈ Inline.targets l, f.Links id t := fun t ht =>
      ⟨d', hd', hkind ▸ DefinitionKind.mem_links_of_text htext ht⟩
    have haccounts := (accounts_rules hconfines hquiet hseparator n hh _).inlines hl htargets
    have hc₂ := haccounts.confined hc
    refine ⟨(hc₂.of_core_eq (c₂.core_modifyFootnotes _ _)).resolveCommands fun _ _ _ => trivial,
      lists_handle ((haccounts.lists hc ?below).mono fun _ _ hnote =>
        hnote.mono fun _ hx => hx.to_reflTransGen) fun note hnote => ?note, d', hd', ?_⟩
    case below =>
      intro x hx d hd
      have hne : id ≠ x := by
        rintro rfl
        exact hends hx
      refine hf x hx.to_reflTransGen d ?_
      rw [modifyContent_eq, definition?_modifyDefinition, if_neg hne, routeFootnotes,
        definition?_modifyFootnotes]
      exact hd
    case note =>
      refine ⟨id, d', .refl, hd', hdocument, ?_⟩
      rw [hkind]
      exact DefinitionKind.mem_notes.2 ⟨_, htext, (Inline.given_rules _).inlines hl hnote⟩
    rw [hkind]
    exact hchildren

/-- **The footnotes that a pass lists stand in texts that the node leads to in the end**, if none of
    these leads back to itself. -/
theorem lists_handleCommands (n : Nat) (hends : f.AllWaysEnd id)
    (hc : Confined c₀ nodes (fun _ => True) c) (hf : f.Foretells (f.Reaches id) c')
    (h : (Engine.handleCommands n id).Gives c (.ok ()) c') :
    Lists (f.Shelves (f.Reaches id)) c c' := by
  refine Engine.rel_of_handleCommands
    (R := fun id c c' => f.AllWaysEnd id → Confined c₀ nodes (fun _ => True) c →
      f.Foretells (f.Reaches id) c' → Lists (f.Shelves (f.Reaches id)) c c')
    (fun {id c c₁} h hends hc hf => ?depth)
    (fun n ih {id c d c'} hd hsucceeds hends hc hf => ?pass) n id h hends hc hf
  case depth => exact (h hends (hc.of_core_eq (c.core_atDepth _)) hf).atDepth
  case pass =>
    have hextends := extends_handleCommands n
    have hbelow : ∀ y, f.Links id y → ∀ {c c'}, (Engine.handleCommands n y).Gives c (.ok ()) c' →
        Accounts c₀ f nodes (f.LeadsTo id) c c' := by
      intro y hy c c' h
      have hmem : ∀ z, f.Reaches y z → f.LeadsTo id z := fun z hz => .head' hy hz
      refine ⟨hextends y _ _ _ h, confined_handleCommands hconfines n y _ _ _ h, fun hc hf => ?_⟩
      exact (ih y h (fun z hz => hends z (.head hy hz)) hc (hf.mono hmem)).mono fun _ _ hnote =>
        hnote.mono hmem
    have hreaches : ∀ {c c'}, Lists (f.Shelves (f.LeadsTo id)) c c' →
        Lists (f.Shelves (f.Reaches id)) c c' := fun h =>
      h.mono fun _ _ hnote => hnote.mono fun _ hx => hx.to_reflTransGen
    have hR := composes_lists (f.Shelves (f.Reaches id))
    cases hsucceeds with
    | @parts c₁ _ hk htext hparts =>
      have hlater : Extends c₁ c' := Engine.Moves.runAll composes_extends (fun x hx => by
        obtain ⟨child, -, rfl⟩ := List.mem_map.1 hx
        exact hextends child) _ _ _ hparts
      obtain ⟨hc₁, hlists, d', hd', hchildren⟩ := lists_handles hconfines hquiet hseparator n hbelow
        (hends id .refl) hd hk hc htext (hf.of_extends hlater)
      refine hR.trans hlists (hreaches ((Engine.rel_of_runAll (composes_accounts c₀ f nodes _)
        (fun x hx {c c'} h => ?_) hparts).lists hc₁ (hf.mono fun _ hx => hx.to_reflTransGen)))
      obtain ⟨child, hchild, rfl⟩ := List.mem_map.1 hx
      exact hbelow child ⟨d', hd', DefinitionKind.mem_links_of_child (hchildren ▸ hchild)⟩ h
    | target hk ht hgives =>
      have hlink := (hf.of_extends (hextends _ _ _ _ hgives)).links_target hd hk ht
      exact hreaches ((hbelow _ hlink hgives).lists hc (hf.mono fun _ hx => hx.to_reflTransGen))
    | @found reference target _ hk hnone hl hgives =>
      obtain ⟨-, hc₁⟩ := hc.setTarget hconfines hd hk hnone hl
      obtain ⟨references, hset⟩ := definition?_setTarget hd hk target
      have hlink := (hf.of_extends (hextends _ _ _ _ hgives)).links_target hset rfl rfl
      have hleaves : LeavesNotes c ((c.addReference target id).setTarget id target) :=
        (LeavesNotes.addReference c target id).trans (.setTarget _ id target)
      refine hR.trans hleaves.lists (hreaches ((hbelow _ hlink hgives).lists hc₁ (hf.mono ?_)))
      exact fun _ hx => hx.to_reflTransGen

end

/-! ## Converted inlines in other places -/

/-- The font is that of other tags, or not set. -/
def Tags.Allows (tags other : Tags) : Prop :=
  tags.font = other.font ∨ tags.font = .inherit

theorem Tags.Allows.inherit {tags other : Tags} (h : tags.Allows other) (own : Tags) :
    (own.inherit tags).Allows (own.inherit other) := by
  rcases own with ⟨_, _ | _ | _⟩
  · exact h
  · exact Or.inl rfl
  · exact Or.inl rfl

theorem Tags.Allows.typedFont?_settled {tags other : Tags} (h : tags.Allows other) (own : Tags) :
    ((own.settled other).inherit tags).typedFont? = none := by
  have hcleared : ({ own with font := .cleared }.inherit tags).typedFont? = none := by
    rw [Tags.typedFont?]
    exact ite_self none
  unfold Tags.settled
  dsimp only
  split
  · exact hcleared
  · rename_i hset
    rw [Bool.or_eq_true, not_or, Option.not_isSome_iff_eq_none] at hset
    rw [Tags.typedFont?, ite_eq_left_iff]
    intro
    rcases h.inherit own with hfont | hfont
    · rw [Tags.fontName?, hfont]
      exact hset.2
    · rw [Tags.fontName?, hfont]

/-- All text is in Unicode. -/
def Segment.AreUnicode (segments : List Segment) : Prop :=
  ∀ segment ∈ segments, segment.font = none

theorem Segment.AreUnicode.normalize_eq {segments : List Segment} (h : AreUnicode segments)
    (fonts : FontRegistry) : fonts.normalize segments = Segment.plain segments := by
  refine congrArg String.join (List.map_congr_left fun segment hsegment => ?_)
  rw [FontRegistry.normalizeSegment, h segment hsegment]

namespace Inline

variable {g : DefinitionId → Option (List Segment)} {fonts : FontRegistry} {tags place : Tags}

/-- **A converted inline shows nothing but Unicode text wherever no other font is set**, besides
    what the definitions show that it stands for. -/
theorem forall_segments_remap {P : Segment → Prop} (hP : ∀ text, P { text }) {i : Inline}
    (htags : tags.Allows place)
    (hg : ∀ t ∈ shownTargets [i], ∀ s, g t = some s → ∀ segment ∈ s, P segment)
    {s : List Segment} (hs : segments g tags (remap fonts place i) = some s) :
    ∀ segment ∈ s, P segment := by
  have list : ∀ (l : List Inline) {tags place : Tags} {s : List Segment},
      (∀ i ∈ l, (∀ t ∈ shownTargets [i], ∀ s, g t = some s → ∀ segment ∈ s, P segment) →
        ∀ {s}, segments g tags (remap fonts place i) = some s → ∀ segment ∈ s, P segment) →
      (∀ t ∈ shownTargets l, ∀ s, g t = some s → ∀ segment ∈ s, P segment) →
      segmentsList g tags (l.map (remap fonts place)) = some s → ∀ segment ∈ s, P segment := by
    intro l tags place s ih hg hs
    induction l generalizing s with
    | nil =>
      rw [List.map_nil, segmentsList] at hs
      cases hs
      rintro segment ⟨⟩
    | cons i l ihl =>
      obtain ⟨first, others, hi, hl, rfl⟩ := segmentsList_cons_eq_some.1 hs
      have hfirst : ∀ segment ∈ first, P segment :=
        ih i (by simp) (fun t ht => hg t (mem_shownTargets_iff.2 ⟨i, by simp, ht⟩)) hi
      have hothers : ∀ segment ∈ others, P segment := ihl (fun j hj => ih j (by simp [hj]))
        (fun t ht => by
          obtain ⟨j, hj, ht⟩ := mem_shownTargets_iff.1 ht
          exact hg t (mem_shownTargets_iff.2 ⟨j, by simp [hj], ht⟩)) hl
      exact fun segment hsegment =>
        (List.mem_append.1 hsegment).elim (hfirst segment) (hothers segment)
  induction i using induction generalizing tags place s with
  | run text own =>
    rw [remap, FontRegistry.remapRun, segments_run, htags.typedFont?_settled] at hs
    cases hs
    intro segment hsegment
    rw [List.mem_singleton.1 hsegment]
    exact hP _
  | span l own ih =>
    rw [shownTargets_span] at hg
    rw [remap_span, segments_span] at hs
    exact list l (fun i hi hg _ hs => ih i hi (htags.inherit own) hg hs) hg hs
  | command name kind parameters own evaluation ihp ihe =>
    rw [shownTargets_command] at hg
    rw [remap_command, segments_command, output?_remapEvaluation, shownOf_remapEvaluation] at hs
    have hshown : ∀ {s}, segmentsList g (own.inherit tags)
        ((evaluation.shownOf parameters).map (remap fonts (own.inherit place))) = some s →
          ∀ segment ∈ s, P segment :=
      list _ (fun i hi hg _ hs => by
        rcases Evaluation.mem_of_mem_shownOf hi with hp | he
        · exact ihp i hp (htags.inherit own) hg hs
        · exact ihe i he (htags.inherit own) hg hs)
        fun t ht => hg t (List.mem_append_right _ ht)
    rcases ho : evaluation.output? with _ | id | n | j <;> rw [ho] at hs
    · cases hs
      intro segment hsegment
      rw [List.mem_singleton.1 hsegment]
      exact hP _
    · exact hg id (by rw [target?_of_output? ho]; simp) s hs
    · exact hshown hs
    · exact hshown hs

/-- A converted inline is in Unicode if the definitions are that it shows. -/
theorem areUnicode_remap {i : Inline} (htags : tags.Allows place)
    (hg : ∀ t ∈ shownTargets [i], ∀ s, g t = some s → Segment.AreUnicode s) {s : List Segment}
    (hs : segments g tags (remap fonts place i) = some s) : Segment.AreUnicode s :=
  forall_segments_remap (fun _ => rfl) htags hg hs

/-- A footnote of what is converted is converted. -/
theorem exists_footnote_remap {i : Inline} {note : Footnote}
    (h : (remap fonts place i).footnote? = some note) :
    ∃ body tags, note.body = remap fonts tags body := by
  rcases i with _ | _ | ⟨name, kind, parameters, own, evaluation⟩
  case command =>
    rw [remap_command, footnote?, footnote?_remapEvaluation] at h
    obtain ⟨old, -, rfl⟩ := Option.map_eq_some_iff.1 h
    exact ⟨old.body, _, rfl⟩
  all_goals cases h

/-- What is in an inline of another one is in that, too. -/
theorem nested_trans {i j k : Inline} (hj : j ∈ i.nested) (hk : k ∈ j.nested) : k ∈ i.nested := by
  have list : ∀ {l : List Inline}, (∀ i ∈ l, j ∈ i.nested → k ∈ i.nested) →
      j ∈ nestedList l → k ∈ nestedList l := by
    intro l ih hj
    obtain ⟨i, hi, hj⟩ := mem_nestedList.1 hj
    exact mem_nestedList.2 ⟨i, hi, ih i hi hj⟩
  induction i using induction with
  | run text own =>
    rw [nested, List.mem_singleton] at hj
    exact hj ▸ hk
  | span l own ih =>
    rcases mem_nested_span.1 hj with rfl | hj
    · exact hk
    · exact mem_nested_span.2 (Or.inr (list ih hj))
  | command name kind parameters own evaluation ihp ihe =>
    rcases mem_nested_command.1 hj with rfl | hj | hj
    · exact hk
    · exact mem_nested_command.2 (Or.inr (Or.inl (list ihp hj)))
    · exact mem_nested_command.2 (Or.inr (Or.inr (list ihe hj)))

/-- The body of a footnote of an inline is in the inline. -/
theorem body_mem_nested {i : Inline} {note : Footnote} (h : i.footnote? = some note) :
    note.body ∈ i.nested := by
  rcases i with _ | _ | ⟨name, kind, parameters, own, evaluation⟩
  case command =>
    rcases evaluation with _ | _ | ⟨output, number, body⟩
    case noted =>
      cases h
      refine mem_nested_command.2 (Or.inr (Or.inr (mem_nestedList.2 ⟨body, ?_, self_mem_nested _⟩)))
      simp [Evaluation.inlines]
    all_goals cases h
  all_goals cases h

end Inline

/-! ## Footnotes after both passes -/

namespace DefinitionKind

/-- Conversion keeps the numbers of the footnotes of a definition. -/
theorem numbers_notes_resolveFonts (kind : DefinitionKind) (fonts : FontRegistry) (tags : Tags) :
    ((kind.mapContents fun content =>
        content.resolveFonts (Inline.remap fonts tags)).notes).map Footnote.number =
      kind.notes.map Footnote.number := by
  have hcontent : ∀ content : Content,
      (Inline.footnotes (content.resolveFonts (Inline.remap fonts tags)).inlines).map
        Footnote.number = (Inline.footnotes content.inlines).map Footnote.number := by
    rintro ⟨source, _ | l | l⟩
    · rfl
    · have hnumbers := Inline.numbers_remapList fonts tags l
      rwa [Inline.remapList_eq] at hnumbers
    · rfl
  simp only [notes, contents_mapContents, List.flatMap_map, List.map_flatMap, hcontent]

end DefinitionKind

namespace Context

/-- Settled definitions do not lead back to themselves. -/
theorem Settled.not_leadsTo_self (h : c.Settled x) : ¬ c.LeadsTo x x := by
  induction h with
  | @intro x d hd _ _ ih =>
    intro hx
    obtain ⟨y, ⟨d', hd', hy⟩, hyx⟩ := Relation.TransGen.head'_iff.1 hx
    cases hd.symm.trans hd'
    exact ih y hy (.tail' hyx ⟨d, hd, hy⟩)

/-- Conversion keeps what a definition leads to. -/
theorem Converts.links {y : DefinitionId} (h : Converts c c') (hxy : c.Links x y) :
    c'.Links x y := by
  obtain ⟨d, hd, hy⟩ := hxy
  obtain ⟨kind, hd', hk⟩ := h.definition hd
  refine ⟨_, hd', ?_⟩
  cases hk with
  | same => exact hy
  | fonts =>
    rw [DefinitionKind.links, DefinitionKind.targets_resolveFonts,
      DefinitionKind.children_mapContents, DefinitionKind.target?_mapContents]
    exact hy

/-- A built context has no footnotes. -/
theorem IsBuilt.footnotes_eq_nil (h : c.IsBuilt) (document : Option DocumentId) :
    c.footnotes document = [] := by
  obtain ⟨settings, events, hs, he⟩ := h
  induction hs with
  | start => cases document <;> rfl
  | @edit _ _ e _ _ ih =>
    rw [footnotes, e.footnoteList_apply]
    exact ih fun e hmem => he e (by simp [hmem])
  | call _ _ _ => exact (he _ List.mem_concat_self).elim

/-- In a built context footnotes are in order: there are none. -/
theorem IsBuilt.isNoted (h : c.IsBuilt) (hlists : c.HasDocuments) : c.IsNoted := by
  have hnumbers : ∀ d, c.numbers d = [] := fun d => by
    rw [numbers, h.footnotes_eq_nil, List.map_nil]
  have hunread : ∀ {x d}, c.definition? x = some d → d.kind.notes = [] := fun hd =>
    DefinitionKind.notes_of_unparsed (h.isFresh.contents hd)
  constructor
  · exact hlists
  · intro d; rw [hnumbers]; exact List.nodup_nil
  · intro d k hk; rw [hnumbers] at hk; cases hk
  · intro x d hd note hnote; rw [hunread hd] at hnote; cases hnote
  · intro x y d d' hd hd' _ note hnote; rw [hunread hd] at hnote; cases hnote
  · intro x d hd content hcontent l hstage
    rw [h.isFresh.contents hd content hcontent] at hstage; cases hstage

/-- The command pass of a separator may come to the node, or the node is not there yet. -/
def ServesSeparators (c : Context) (x : DefinitionId) : Prop :=
  (∃ document y, c.lookup? Invocation.separatorKey document = some y ∧
    Relation.ReflTransGen c.MayHandle y x) ∨ c.definitions.size ≤ x.index

theorem confines_servesSeparators (c : Context) :
    c.Confines c.ServesSeparators fun _ => True where
  handles := by
    rintro x y (⟨document, separator, hl, hx⟩ | hx) hy
    · exact Or.inl ⟨document, separator, hl, hx.tail hy⟩
    · exact absurd hy (not_mayHandle (Array.getElem?_eq_none hx))
  shows _ _ := trivial
  reads _ _ := trivial
  booleans _ _ := trivial
  new hy := ⟨Or.inr hy, trivial⟩

/-- The text of a settled definition is in Unicode. -/
theorem Settled.areUnicode (hs : c.IsSound) (hx : c.Settled x) (hm : ¬ c.IsMultilingual x)
    (hr : c.RefersToTexts x) {s : List Segment} (h : c.segments? x = some s) :
    Segment.AreUnicode s := by
  obtain ⟨n, s', hn⟩ := hx.segmentsWithin hs
  have hsettled := segmentsWithin_converted hs (.refl c) n hx hm hr
  rw [hn, Option.map_some, Option.some.injEq] at hsettled
  obtain rfl := Option.some.inj ((segments?_of_within hn).symm.trans h)
  intro segment hsegment
  rw [hsettled] at hsegment
  obtain ⟨old, -, rfl⟩ := List.mem_map.1 hsegment
  rfl

/-- **A footnote of a settled definition is in Unicode**, if it shows no reference to a
    multilingual value. -/
theorem Settled.footnote_converted (hs : c.IsSound) (hx : c.Settled x) {d : Definition}
    (hd : c.definition? x = some d) {note : Footnote} (hnote : note ∈ d.kind.notes)
    (hr : ∀ t ∈ Inline.shownTargets [note.body], c.RefersToTexts t) :
    ∃ s, c.inlineText? note.body = some s ∧
      c.normalizedInlineText? .unset note.body = some s := by
  obtain ⟨d', hd', hconverted⟩ := hx.definition
  cases hd.symm.trans hd'
  obtain ⟨content, hcontent, hnote⟩ := DefinitionKind.mem_notes.1 hnote
  obtain ⟨j, hj, hfootnote⟩ := List.mem_filterMap.1 hnote
  obtain ⟨i, hi, hj⟩ := Inline.mem_nestedList.1 hj
  have hfixed := hs.fixed hd content hcontent (hconverted.contents content hcontent)
  -- the inlines are their own conversions, so the footnote comes from a conversion
  obtain ⟨tags, -, hremap⟩ := hfixed.remap
  have hconversion : ∃ body tags, note.body = Inline.remap c.fonts tags body := by
    rw [← hremap i hi] at hj
    obtain ⟨k, -, tags', rfl⟩ := Inline.mem_nested_remap hj
    exact Inline.exists_footnote_remap hfootnote
  obtain ⟨body, place, hbody⟩ := hconversion
  have htargets : ∀ t ∈ Inline.shownTargets [note.body], c.Settled t ∧ ¬ c.IsMultilingual t := by
    intro t ht
    have hmem : t ∈ Inline.targets content.inlines := by
      obtain ⟨k, hk, ht⟩ := Inline.mem_targets.1 (Inline.targets_of_shownTargets ht)
      rw [Inline.mem_nestedList] at hk
      obtain ⟨_, hbody, hk⟩ := hk
      rw [List.mem_singleton.1 hbody] at hk
      exact Inline.mem_targets.2 ⟨k, Inline.mem_nestedList.2
        ⟨i, hi, Inline.nested_trans hj (Inline.nested_trans (Inline.body_mem_nested hfootnote) hk)⟩,
          ht⟩
    exact ⟨hfixed.targets t hmem, (hs.targets hd t (DefinitionKind.mem_targets.2
      ⟨content, hcontent, hmem⟩)).2⟩
  have hsome : (c.inlineSegments? .unset note.body).isSome := by
    refine Inline.segments_isSome _ fun t ht => ?_
    obtain ⟨n, s, hn⟩ := (htargets t ht).1.segmentsWithin hs
    rw [segments?_of_within hn]
    rfl
  obtain ⟨s, hs'⟩ := Option.isSome_iff_exists.1 hsome
  have hunicode : Segment.AreUnicode s := by
    rw [inlineSegments?, hbody] at hs'
    refine Inline.areUnicode_remap (Or.inr rfl) (fun t ht s h => ?_) hs'
    have ht' : t ∈ Inline.shownTargets [note.body] := by
      rw [hbody, Inline.shownTargets_remap]
      exact ht
    exact (htargets t ht').1.areUnicode hs (htargets t ht').2 (hr t ht') h
  exact ⟨Segment.plain s, by rw [inlineText?, hs', Option.map_some],
    by rw [normalizedInlineText?, hs', Option.map_some, hunicode.normalize_eq]⟩

end Context

/-- **Footnotes are converted with the texts that they have left.**  Where both passes of a node of
    a built context succeed, every footnote that is listed then, of whatever document, reads the
    same in Unicode.  The separators of `\lines` have no footnotes, and no footnote shows a
    reference to a multilingual value.  Edits name documents that there are; what is added while
    the context is built finds its parent, and what is added by hand is not resolved and has no
    parts in other documents (`Edit.Applies`). -/
theorem footnotes_converted {document : Option DocumentId} {note : Footnote}
    (hbuilt : c₀.IsBuilt) (hreachable : c₀.ReachedBy Edit.FindsDocument)
    (hquiet : ∀ document y, c₀.lookup? Invocation.separatorKey document = some y → c₀.IsQuiet y)
    (hcommands : (Call.commands id).Ends c₀ (.ok ()) c)
    (hfonts : (Call.fonts id).Ends c (.ok ()) c') (hnote : note ∈ c'.footnotes document)
    (hr : ∀ t ∈ Inline.shownTargets [note.body], c'.RefersToTexts t) :
    ∃ s, c'.inlineText? note.body = some s ∧
      c'.normalizedInlineText? .unset note.body = some s := by
  have hlists : c₀.HasDocuments := Reached.hasDocuments (fun _ _ he => he) hreachable
  have hnoted : c'.IsNoted := ((hbuilt.isNoted hlists).call hcommands).call hfonts
  obtain ⟨n, hcommands⟩ := hcommands
  obtain ⟨m, hfonts⟩ := hfonts
  obtain ⟨hs, -, -⟩ := secures_handleCommands n id _ _ _ hbuilt.isFresh.isSound hcommands
  obtain ⟨hs', hsteps, hsettled⟩ := secures_handleFonts m id _ _ _ hs hfonts
  have hsettled : c'.Settled id := hsettled () rfl
  have hconverts : Converts c c' := converts_handleFonts m id _ _ _ hfonts
  have hreaches : ∀ {x y}, c.Reaches x y → c'.Reaches x y :=
    Relation.ReflTransGen.mono (fun _ _ => hconverts.links) _ _
  -- the footnote is one that the command pass has listed
  have hlisted : note.number ∈ c.numbers document := by
    rw [← hconverts.numbers document]
    exact List.mem_map_of_mem hnote
  obtain ⟨old, hold, hnumber⟩ := List.mem_map.1 hlisted
  have hends : c.AllWaysEnd id := fun x hx hbelow =>
    (hsettled.reaches (hreaches hx)).not_leadsTo_self
      (Relation.TransGen.mono (fun _ _ => hconverts.links) _ _ hbelow)
  have hquiet' : ∀ x, c₀.ServesSeparators x → ∀ d, c₀.definition? x = some d →
      ∀ content ∈ d.kind.contents, ∀ l, Markup.parse c₀.commands content.source = .ok l →
        ∀ i ∈ l, i.Uses (· ≠ .footnote) := by
    rintro x (⟨document, y, hl, hx⟩ | hx) d hd
    · exact hquiet document y hl x hx d hd
    · exact absurd (index_lt_of_definition? hd) (Nat.not_lt.2 hx)
  have hlists := lists_handleCommands (f := c) (confines_servesSeparators c₀) hquiet'
    (fun document y hl => Or.inl ⟨document, y, hl, .refl⟩) n hends
    (confines_servesSeparators c₀).confined (fun x _ d hd _ => ⟨d, hd, rfl, rfl⟩) hcommands
  obtain ⟨x, d, hx, hd, rfl, hplaced⟩ := (hlists document old hold).resolve_left
    (by rw [hbuilt.footnotes_eq_nil]; simp)
  -- in its text there is a footnote with its number now, which is the one listed
  obtain ⟨kind, hd', hk⟩ := hconverts.definition hd
  obtain ⟨note', hnote', hsame⟩ : ∃ note' ∈ kind.notes, note'.number = old.number := by
    have hmem : old.number ∈ kind.notes.map Footnote.number := by
      have hplaced := List.mem_map_of_mem (f := Footnote.number) hplaced
      cases hk with
      | same => exact hplaced
      | fonts => rwa [DefinitionKind.numbers_notes_resolveFonts]
    exact List.mem_map.1 hmem
  obtain rfl : note' = note :=
    List.inj_on_of_nodup_map (hnoted.nodup d.document) (hnoted.listed hd' note' hnote') hnote
      (hsame.trans hnumber)
  exact (hsettled.reaches (hreaches hx)).footnote_converted hs' hd' hnote' hr

/-- A document in a legacy font: of two footnotes, one stands in a stanza that another one inserts
    between its lines. -/
theorem footnotes_converted_of_insertion :
    ∃ c₀ c c' : Context, c₀.IsBuilt ∧ c₀.ReachedBy Edit.FindsDocument ∧
      (∀ document y, c₀.lookup? Invocation.separatorKey document = some y → c₀.IsQuiet y) ∧
      (Call.commands ⟨3⟩).Ends c₀ (.ok ()) c ∧ (Call.fonts ⟨3⟩).Ends c (.ok ()) c' ∧
      (c.footnotes (some ⟨0⟩)).map (fun note => c.inlineText? note.body) = [some "w", some "y"] ∧
      (c'.footnotes (some ⟨0⟩)).map (fun note => c'.inlineText? note.body) =
        [some "ⲱ", some "ⲏ"] ∧
      ∀ note ∈ c'.footnotes (some ⟨0⟩), ∃ s, c'.inlineText? note.body = some s ∧
        c'.normalizedInlineText? .unset note.body = some s := by
  let edits := [Edit.addDocument "d" "D",
    .addVersion ⟨0⟩ (.ofKnown .coptic) (some "CS Avva Shenouda"),
    .addStandaloneStanza none (some "defaultLineSeparator") "s",
    .addStanza ⟨0⟩ (some "a") "z\\footnote\x7bw\x7d",
    .addStanza ⟨0⟩ none "x\\footnote\x7by\x7d\\lines\x7b|b\\def\x7ba\x7d|c\x7d"]
  let c₀ := edits.foldl Edit.apply (.new {})
  let c := (Call.commands ⟨3⟩).run 4 c₀
  let c' := (Call.fonts ⟨3⟩).run 4 c
  have hbuilt : c₀.IsBuilt := (Context.isBuilt_new {}).edits (by decide +kernel)
  have hreachable : c₀.ReachedBy Edit.FindsDocument := (Reached.new {}).edits (by decide +kernel)
  have hquiet : ∀ document y,
      c₀.lookup? Invocation.separatorKey document = some y → c₀.IsQuiet y := by
    intro document y hl
    have hplain : ∀ d ∈ c₀.definitions, d.key = some Invocation.separatorKey →
        d.kind.name = "stanza" ∧ ∀ content ∈ d.kind.contents, content.source = "s" := by
      decide +kernel
    have hread : Markup.parse c₀.commands "s" = .ok [.run "s" .unset] := by rfl
    obtain ⟨separator, hseparator, hkey, -⟩ :=
      (Reached.isIndexed (fun _ _ he => he) hreachable).exists_of_lookup? hl
    obtain ⟨hkind, hsources⟩ := hplain separator (Array.mem_of_getElem? hseparator) hkey
    obtain ⟨content, hkind⟩ : ∃ content, separator.kind = .stanza content := by
      cases hk : separator.kind <;> rw [hk] at hkind
      case stanza content => exact ⟨content, rfl⟩
      all_goals simp [DefinitionKind.name] at hkind
    have hcontent : content.source = "s" :=
      hsources content (by rw [hkind]; simp [DefinitionKind.contents])
    exact isQuiet_of_run hseparator hkind (hcontent ▸ hread)
  have hcommands : (Call.commands ⟨3⟩).Ends c₀ (.ok ()) c := Call.ends_run (by decide +kernel)
  have hfonts : (Call.fonts ⟨3⟩).Ends c (.ok ()) c' := Call.ends_run (by decide +kernel)
  have hshown : ∀ note ∈ c'.footnotes (some ⟨0⟩), Inline.shownTargets [note.body] = [] := by
    decide +kernel
  refine ⟨c₀, c, c', hbuilt, hreachable, hquiet, hcommands, hfonts, by decide +kernel,
    by decide +kernel, fun note hnote => ?_⟩
  exact footnotes_converted hbuilt hreachable hquiet hcommands hfonts hnote
    (by rw [hshown note hnote]; simp)

/-- Of a separator that is in a legacy font and has a footnote, only the text is converted. -/
theorem not_converted_of_separator :
    ∃ c₀ c c' : Context, c₀.IsBuilt ∧ (Call.commands ⟨2⟩).Ends c₀ (.ok ()) c ∧
      (Call.fonts ⟨2⟩).Ends c (.ok ()) c' ∧ ∃ note ∈ c'.footnotes (some ⟨0⟩),
        c'.inlineText? note.body = some "y" ∧
          c'.normalizedInlineText? .unset note.body = some "ⲏ" := by
  let c₀ := [Edit.addDocument "d" "D",
    .addVersion ⟨0⟩ (.ofKnown .coptic) (some "CS Avva Shenouda"),
    .addStanza ⟨0⟩ (some "defaultLineSeparator") "\\footnote\x7by\x7d",
    .addStanza ⟨0⟩ none "\\lines\x7b|a|b\x7d"].foldl Edit.apply (.new {})
  let c := (Call.commands ⟨2⟩).run 4 c₀
  let c' := (Call.fonts ⟨2⟩).run 4 c
  exact ⟨c₀, c, c', (Context.isBuilt_new {}).edits (by decide +kernel),
    Call.ends_run (by decide +kernel), Call.ends_run (by decide +kernel), by decide +kernel⟩

end Rubric
