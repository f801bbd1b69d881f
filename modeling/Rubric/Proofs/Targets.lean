/-
  Rubric — the targets of part references.

  A part reference gets its target before the commands of the target are
  handled, and keeps it when they fail.

  * `segments?_of_target`, `rows?_of_target`: a part reference stands for its target;
  * `Context.AimsResolved`: every target that is new is resolved; `aimsResolved_handleCommands`,
    `Call.Ends.aimsResolved`: what succeeds aims at resolved definitions only;
  * `SetByFailure`: a call that failed has set a target;
  * **`targets_resolved`**: in a session of calls a target is resolved, or was set
    by a call that failed.
-/
import Rubric.Proofs.Closure
import Rubric.Proofs.References
import Rubric.Proofs.Rendering
import Rubric.Proofs.Routed

namespace Rubric

open Context

variable {c₀ c c' c₁ : Context} {id p t : DefinitionId} {events : List Event}

/-! ## What a part reference stands for -/

/-- The rows of what a definition holds. -/
def DefinitionKind.rows (rowsOf : DefinitionId → Option Nat) : DefinitionKind → Option Nat
  | .stanza _ | .paragraph _ => some 1
  | .section body => do
    let rows ← body.children.mapM rowsOf
    return body.title.toList.length + rows.foldr (· + ·) 0
  | .partReference reference =>
    match reference.target with
    | some target => rowsOf target
    | none => some 0
  | .boolean _ | .integer _ | .multilingual _ => some 0

namespace Context

/-- The target of a part reference. -/
def target? (c : Context) (p : DefinitionId) : Option DefinitionId :=
  (c.definition? p).bind fun d => d.kind.target?

theorem target?_eq_some : c.target? p = some t ↔
    ∃ d, c.definition? p = some d ∧ d.kind.target? = some t :=
  Option.bind_eq_some_iff

theorem target?_eq_some_reference : c.target? p = some t ↔ ∃ d reference,
    c.definition? p = some d ∧ d.kind = .partReference reference ∧ reference.target = some t := by
  rw [target?_eq_some]
  constructor
  · rintro ⟨d, hd, ht⟩
    obtain ⟨reference, hk, ht⟩ := DefinitionKind.target?_eq_some.1 ht
    exact ⟨d, reference, hd, hk, ht⟩
  · rintro ⟨d, reference, hd, hk, ht⟩
    exact ⟨d, hd, by rw [hk]; exact ht⟩

/-- A recursion over definitions that goes on to the target of a part reference has the same value
    for both. -/
theorem rounds_of_target {α : Type} {g : Nat → DefinitionId → Option α} {size : Nat}
    (hstart : ∀ i, g 0 i = none)
    (hstep : ∀ {n m}, (∀ i a, g n i = some a → g m i = some a) →
      ∀ i a, g (n + 1) i = some a → g (m + 1) i = some a)
    (hfinite : ∀ {n i a}, g n i = some a → i.index < size)
    (htarget : ∀ n, g (n + 1) p = g n t) : g size p = g size t := by
  refine Option.ext fun a => ⟨fun h => ?_, fun h => ?_⟩
  · rcases size with _ | size
    · rw [hstart] at h; cases h
    · exact enough hstart hstep hfinite ((htarget size).symm.trans h)
  · exact enough hstart hstep hfinite ((htarget size).trans h)

/-- A part reference has the text of its target. -/
theorem segments?_of_target (ht : c.target? p = some t) : c.segments? p = c.segments? t := by
  obtain ⟨d, reference, hd, hk, ht⟩ := target?_eq_some_reference.1 ht
  refine rounds_of_target (g := c.segmentsWithin) (fun _ => rfl) segmentsWithin_step
    (fun {n i a} h => ?_) fun n => ?_
  · rcases n with _ | n
    · cases h
    · rw [segmentsWithin_succ, Option.bind_eq_some_iff] at h
      obtain ⟨d, hd, -⟩ := h
      exact index_lt_of_definition? hd
  · rw [segmentsWithin_succ, hd, Option.bind_some, hk, DefinitionKind.segments, ht]

theorem text?_of_target (ht : c.target? p = some t) : c.text? p = c.text? t := by
  rw [text?, segments?_of_target ht, text?]

/-- One more round of counting rows. -/
theorem rowsWithin_succ (c : Context) (n : Nat) (id : DefinitionId) :
    c.rowsWithin (n + 1) id =
      (c.definition? id).bind fun d => d.kind.rows (c.rowsWithin n) := by
  refine congrArg (c.definition? id).bind (funext fun d => ?_)
  rcases d with ⟨_, _, _, _, _, _, kind⟩
  cases kind with
  | partReference reference => rcases reference with ⟨key, _ | target⟩ <;> rfl
  | _ => rfl

/-- With more rounds no number of rows changes. -/
theorem rowsWithin_step {n m : Nat}
    (h : ∀ id k, c.rowsWithin n id = some k → c.rowsWithin m id = some k) (id : DefinitionId)
    (k : Nat) (hk : c.rowsWithin (n + 1) id = some k) : c.rowsWithin (m + 1) id = some k := by
  rw [rowsWithin_succ, Option.bind_eq_some_iff] at hk ⊢
  obtain ⟨d, hd, hk⟩ := hk
  refine ⟨d, hd, ?_⟩
  rcases hkind : d.kind with body | _ | _ | ⟨key, _ | target⟩ | _ | _ | _ <;> rw [hkind] at hk
  case «section» =>
    obtain ⟨rows, hrows, hk⟩ := Option.bind_eq_some_iff.1 hk
    exact Option.bind_eq_some_iff.2 ⟨rows, mapM_mono (fun child _ => h child) hrows, hk⟩
  case partReference.some => exact h target k hk
  all_goals exact hk

theorem index_lt_of_rowsWithin {n k : Nat} (h : c.rowsWithin n id = some k) :
    id.index < c.definitions.size := by
  rcases n with _ | n
  · cases h
  · rw [rowsWithin_succ, Option.bind_eq_some_iff] at h
    obtain ⟨d, hd, -⟩ := h
    exact index_lt_of_definition? hd

/-- A definition whose rows are counted in any number of rounds has as many. -/
theorem rows?_of_within {n k : Nat} (h : c.rowsWithin n id = some k) : c.rows? id = some k :=
  enough (g := c.rowsWithin) (fun _ => rfl) rowsWithin_step index_lt_of_rowsWithin h

/-- A definition has rows if those that its rows are counted from have. -/
theorem rows?_isSome_of_parts {d : Definition} (hd : c.definition? id = some d)
    (h : ∀ y ∈ d.kind.parts, (c.rows? y).isSome) : (c.rows? id).isSome := by
  obtain ⟨k, hk⟩ : ∃ k, c.rowsWithin (c.definitions.size + 1) id = some k := by
    rw [rowsWithin_succ, hd, Option.bind_some]
    rcases hk : d.kind with body | _ | _ | ⟨key, _ | target⟩ | _ | _ | _ <;> rw [hk] at h
    case «section» =>
      obtain ⟨rows, hrows⟩ := Option.isSome_iff_exists.1
        (mapM_isSome fun y hy => h y (List.mem_append_left _ hy))
      exact ⟨_, Option.bind_eq_some_iff.2 ⟨rows, hrows, rfl⟩⟩
    case partReference.some =>
      refine Option.isSome_iff_exists.1 (h target (List.mem_append_right _ ?_))
      exact List.mem_singleton_self target
    all_goals exact ⟨_, rfl⟩
  rw [rows?_of_within hk]
  rfl

/-- A part reference has as many rows as its target. -/
theorem rows?_of_target (ht : c.target? p = some t) : c.rows? p = c.rows? t := by
  obtain ⟨d, reference, hd, hk, ht⟩ := target?_eq_some_reference.1 ht
  refine rounds_of_target (g := c.rowsWithin) (fun _ => rfl) rowsWithin_step
    index_lt_of_rowsWithin fun n => ?_
  rw [rowsWithin_succ, hd, Option.bind_some, hk, DefinitionKind.rows, ht]

/-- A part reference without a target has no text and no rows. -/
theorem text?_of_no_target {d : Definition} {reference : PartReference}
    (hd : c.definition? p = some d) (hk : d.kind = .partReference reference)
    (hnone : reference.target = none) : c.text? p = some "" ∧ c.rows? p = some 0 := by
  have hsize := index_lt_of_definition? hd
  obtain ⟨n, hn⟩ : ∃ n, c.definitions.size = n + 1 := ⟨c.definitions.size - 1, by omega⟩
  constructor
  · rw [text?, segments?, hn, segmentsWithin_succ, hd, Option.bind_some, hk,
      DefinitionKind.segments, hnone]
    rfl
  · rw [rows?, hn, rowsWithin_succ, hd, Option.bind_some, hk, DefinitionKind.rows, hnone]

/-! ## What succeeds -/

/-- Passes lead from the one context to the other, and every target that is new is resolved. -/
def AimsResolved (c c' : Context) : Prop :=
  c.IsSound → Proceeds c c' ∧
    ∀ p t, c'.target? p = some t → c.target? p = some t ∨ c'.Resolved t

theorem composes_aimsResolved : Engine.Composes AimsResolved where
  refl c _ := ⟨.refl, fun _ _ => Or.inl⟩
  trans h h' hs := by
    obtain ⟨hc, hnew⟩ := h hs
    obtain ⟨hc', hnew'⟩ := h' (hc.isSound hs)
    refine ⟨hc.trans hc', fun p t ht => ?_⟩
    rcases hnew' p t ht with ht | hr
    · exact (hnew p t ht).imp_right hc'.resolved
    · exact Or.inr hr

/-- A target that is set stays. -/
theorem Proceeds.target? (h : Proceeds c c') (ht : c.target? p = some t) :
    c'.target? p = some t := by
  refine h.keeps (P := fun c => c.target? p = some t) (fun {pass c c'} hs ht => ?_) ht
  obtain ⟨d, reference, hd, hk, ht⟩ := target?_eq_some_reference.1 ht
  obtain ⟨d', hd', reference', hk', ht'⟩ := hs.steps.definition
    (P := fun kind => ∃ reference, kind = .partReference reference ∧ reference.target = some t)
    (fun hk => hk.reference) hd ⟨reference, hk, ht⟩
  exact target?_eq_some_reference.2 ⟨d', reference', hd', hk', ht'⟩

theorem LeavesTargets.target? (h : LeavesTargets c c') (ht : c'.target? p = some t) :
    c.target? p = some t := by
  obtain ⟨d', hd', ht⟩ := target?_eq_some.1 ht
  exact target?_eq_some.2 (h p d' hd' t ht)

/-- A pass that sets no target. -/
theorem AimsResolved.of_leavesTargets (h : c.IsSound → Proceeds c c') (hl : LeavesTargets c c') :
    AimsResolved c c' :=
  fun hs => ⟨h hs, fun _ _ ht => Or.inl (hl.target? ht)⟩

theorem permits_aimsResolved : Permits (fun _ => True) AimsResolved :=
  ((permits_follows fun _ => True).and permits_leavesTargets).mono composes_aimsResolved
    fun h => .of_leavesTargets (fun hs => (h.1 hs).proceeds) h.2

/-- A part reference gets its target, and nothing else does. -/
theorem target?_setTarget {user target : DefinitionId}
    (ht : ((c.addReference target user).setTarget user target).target? p = some t) :
    p = user ∧ t = target ∨ c.target? p = some t := by
  obtain ⟨d, hd, ht⟩ := target?_eq_some.1 ht
  rw [setTarget_eq] at hd
  obtain ⟨d₁, hd₁, rfl⟩ := definition?_modifyKind hd
  have hold : d₁.kind.target? = some t → c.target? p = some t := fun ht =>
    (permits_leavesTargets.reference c target user).target? (target?_eq_some.2 ⟨d₁, hd₁, ht⟩)
  split at ht
  · rename_i he
    exact Or.inl ⟨he.symm, DefinitionKind.eq_of_target?_setTarget ht⟩
  · exact Or.inr (hold ht)

end Context

/-- An execution that succeeds moves contexts along a relation that allows what commands do, if the
    passes that it runs do so where they succeed. -/
theorem Inline.rel_rules {handle : DefinitionId → Engine Unit} {R : Context → Context → Prop}
    (hR : Permits (fun _ => True) R)
    (hh : ∀ y {c c'}, (handle y).Gives c (.ok ()) c' → R c c') (scope : Scope) :
    ExecutionRules handle scope (fun _ _ c _ _ c' => R c c') (fun _ _ c _ _ c' => R c c') where
  run _ _ _ c := hR.refl c
  span _ _ _ _ _ _ _ h := h
  executed _ _ _ _ _ _ c _ := hR.refl c
  ternary _ _ _ _ _ _ _ _ _ _ _ _ _ _ h _ h' := hR.trans h h'
  language _ _ _ _ _ _ _ _ _ _ _ _ _ h h' := hR.trans h h'
  command _ _ _ _ _ _ _ _ _ _ _ _ h hrun :=
    hR.trans h (Invocation.rel_of_run hR (fun y _ _ _ hgives => hh y hgives) hrun)
  nil _ c := hR.refl c
  cons _ _ _ _ _ _ _ _ _ _ h h' := hR.trans h h'

/-- **A command pass that succeeds aims at resolved definitions only.** -/
theorem aimsResolved_handleCommands (n : Nat) (id : DefinitionId)
    (h : (Engine.handleCommands n id).Gives c (.ok ()) c') : AimsResolved c c' := by
  refine Engine.rel_of_handleCommands (R := fun _ => AimsResolved) (fun {id c c₁} h => ?depth)
    (fun n hh {id c d c'} hd hsucceeds => ?pass) n id h
  case depth =>
    have hdepth : ∀ (c : Context) depth, AimsResolved c (c.atDepth depth) := fun c depth =>
      .of_leavesTargets (fun _ =>
        (Step.of_core_eq (c.core_atDepth depth) : Step .commands _ _).steps.proceeds)
        (.of_definitions rfl)
    exact composes_aimsResolved.trans (hdepth c _) (composes_aimsResolved.trans h (hdepth c₁ _))
  case pass =>
    have hresolves := secures_handleCommands n
    cases hsucceeds with
    | @parts c₁ _ _ htext hparts =>
      have haims : AimsResolved c c₁ := by
        cases htext with
        | nothing => exact composes_aimsResolved.refl c
        | @text content written l tags notes c₂ hcontent hunparsed hwritten _ hl =>
          intro hs
          have hexecutes := (Inline.rel_rules permits_aimsResolved (fun y _ _ => hh y) _).inlines hl
          obtain ⟨hsteps, hdone⟩ :=
            isDone_executeList hresolves (Markup.isFresh_of_mem_parse hwritten) hs hl
          have hroute : Step .commands c₂ (c₂.routeFootnotes d.document notes) :=
            .of_core_eq (c₂.core_modifyFootnotes d.document _)
          have hwrite := step_write hd hcontent hunparsed (hsteps.trans hroute.steps)
            fun i hi => (hdone i hi).steps hroute.steps
          refine composes_aimsResolved.trans hexecutes (.of_leavesTargets (fun _ =>
            (hroute.steps.trans hwrite.steps).proceeds) ?_) hs
          exact composes_leavesTargets.trans
            (.of_definitions (c₂.definitions_modifyFootnotes d.document _)) (.modifyContent _ _ _)
      refine composes_aimsResolved.trans haims
        (Engine.rel_of_runAll composes_aimsResolved (fun x hx => ?_) hparts)
      obtain ⟨y, -, rfl⟩ := List.mem_map.1 hx
      exact hh y
    | target _ _ hgives => exact hh _ hgives
    | @found reference target _ hk hnone _ hgives =>
      intro hs
      have hset : Steps .commands c ((c.addReference target id).setTarget id target) :=
        steps_setTarget hd hk hnone
      obtain ⟨hproceeds, hnew⟩ := hh target hgives (hset.isSound hs)
      refine ⟨hset.proceeds.trans hproceeds, fun p t ht => ?_⟩
      rcases hnew p t ht with ht | hr
      · rcases target?_setTarget ht with ⟨-, rfl⟩ | ht
        · exact Or.inr ((hresolves t _ _ _ (hset.isSound hs) hgives).2.2 () rfl)
        · exact Or.inl ht
      · exact Or.inr hr

/-- **A call that succeeds aims at resolved definitions only.** -/
theorem Call.Ends.aimsResolved {call : Call} (h : call.Ends c (.ok ()) c') : AimsResolved c c' := by
  have hfonts : ∀ n id {r c c'}, (Engine.handleFonts n id).Gives c r c' → AimsResolved c c' :=
    fun n id _ c c' h => .of_leavesTargets
      (fun hs => (secures_handleFonts n id _ _ _ hs h).2.1.proceeds)
      (.of_converts (converts_handleFonts n id c _ c' h))
  obtain ⟨n, h⟩ := h
  cases call with
  | commands id => exact aimsResolved_handleCommands n id h
  | fonts id => exact hfonts n id h
  | document id =>
    replace h : (Engine.resolveDocument n id).Gives c (.ok ()) c' := h
    rw [Engine.resolveDocument, Engine.gives_get_bind, Engine.gives_ofOption_bind] at h
    obtain ⟨d, -, h⟩ := h
    refine Engine.rel_of_runAll composes_aimsResolved (fun x hx {c c'} h => ?_) h
    obtain ⟨version, -, rfl⟩ := List.mem_map.1 hx
    obtain ⟨_, c₁, hcommands, h⟩ := Engine.gives_bind_ok.1 h
    exact composes_aimsResolved.trans (aimsResolved_handleCommands n _ hcommands) (hfonts n _ h)

/-! ## Sessions -/

/-- In a session from `c₀`, the target of the part reference was set by a call that failed. -/
def SetByFailure (c₀ : Context) (events : List Event) (p t : DefinitionId) : Prop :=
  ∃ before call e after c₁ c₂, events = before ++ .call call (.error e) :: after ∧
    Session c₀ before c₁ ∧ call.Ends c₁ (.error e) c₂ ∧ c₁.target? p = none ∧
    c₂.target? p = some t

/-- Later events do not change that. -/
theorem SetByFailure.append {more : List Event} (h : SetByFailure c₀ events p t) :
    SetByFailure c₀ (events ++ more) p t := by
  obtain ⟨before, call, e, after, c₁, c₂, rfl, h⟩ := h
  exact ⟨before, call, e, after ++ more, c₁, c₂, by simp, h⟩

/-- In a session of calls on a built context, a target is resolved or was set by a call that
    failed. -/
theorem Session.target_resolved (hbuilt : c₀.IsBuilt) (h : Session c₀ events c)
    (hcalls : ∀ e ∈ events, e.IsCall) (ht : c.target? p = some t) :
    c.Resolved t ∨ SetByFailure c₀ events p t := by
  induction h with
  | start =>
    obtain ⟨d, hd, ht⟩ := target?_eq_some.1 ht
    rw [hbuilt.isFresh.target hd] at ht
    cases ht
  | edit => exact (hcalls _ List.mem_concat_self).elim
  | @call events c c' call r h hends ih =>
    have hcalls' : ∀ e ∈ events, e.IsCall := fun e he => hcalls e (List.mem_append_left _ he)
    have hs : c.IsSound := h.isSound hbuilt hcalls'
    have hold : c.target? p = some t →
        c'.Resolved t ∨ SetByFailure c₀ (events ++ [.call call r]) p t := fun ht =>
      (ih hcalls' ht).imp (hends.proceeds hs).resolved SetByFailure.append
    rcases r with e | ⟨⟨⟩⟩
    · rcases hbefore : c.target? p with _ | t'
      · exact Or.inr ⟨events, call, e, [], c, c', rfl, h, hends, hbefore, ht⟩
      · have hstays := (hends.proceeds hs).target? hbefore
        exact hold (hbefore.trans (hstays.symm.trans ht))
    · exact ((hends.aimsResolved hs).2 p t ht).elim hold Or.inl

/-- The command pass of a part reference without target: it is refused, or finds no target, or the
    part reference stands for the definition under its key from then on, however the pass of that
    ends. -/
theorem aimed_of_commands {d : Definition} {reference : PartReference} {r : Except Error Unit}
    (hs : c.IsSound) (hd : c.definition? p = some d) (hk : d.kind = .partReference reference)
    (hnone : reference.target = none) (h : (Call.commands p).Ends c r c') :
    c' = c ∧ r ≠ .ok () ∧ (c.lookup? reference.targetKey d.document = none ∨
        ∃ limit, c.settings.depthLimit = some limit ∧ limit ≤ c.depth) ∨
      ∃ t, c.lookup? reference.targetKey d.document = some t ∧ c'.target? p = some t ∧
        (r = .ok () → c'.Resolved t) := by
  obtain ⟨_ | n, h⟩ := h
  · exact (Engine.gives_endless.1 h).elim
  have hresolves := secures_handleCommands n
  replace h : (Engine.handleCommands (n + 1) p).Gives c r c' := h
  rw [Engine.handleCommands, Engine.gives_definition_bind] at h
  obtain ⟨_, -, h⟩ := h
  rcases Engine.gives_nested h with ⟨limit, hlimit, hle, rfl, rfl⟩ | ⟨r₁, c₁, hpass, rfl, rfl⟩
  · exact Or.inl ⟨rfl, by rintro ⟨⟩, Or.inr ⟨limit, hlimit, hle⟩⟩
  obtain ⟨d', hd', hpass⟩ := Engine.gives_commandPass hpass
  cases hd.symm.trans hd'
  cases hpass with
  | parts hparts => exact absurd hk (hparts reference)
  | target hk' ht =>
    cases hk.symm.trans hk'
    rw [hnone] at ht
    cases ht
  | missing hk' _ hl =>
    cases hk.symm.trans hk'
    exact Or.inl ⟨rfl, by rintro ⟨⟩, Or.inl hl⟩
  | @found _ target _ _ hk' _ hl hgives =>
    cases hk.symm.trans hk'
    have hdeeper : Step .commands c (c.atDepth (c.depth + 1)) := .of_core_eq (c.core_atDepth _)
    generalize c.atDepth (c.depth + 1) = c₂ at hdeeper hd' hgives
    have hset : Steps .commands c₂ ((c₂.addReference target p).setTarget p target) :=
      steps_setTarget hd' hk hnone
    have haimed : ((c₂.addReference target p).setTarget p target).target? p = some target := by
      obtain ⟨_, hd₁⟩ := definition?_setTarget hd' hk target
      rw [target?, hd₁]
      rfl
    have hs₁ := (hdeeper.steps.trans hset).isSound hs
    obtain ⟨-, hsteps, hr⟩ := hresolves target _ _ _ hs₁ hgives
    have hback : Step .commands c₁ (c₁.atDepth (c₁.depth - 1)) := .of_core_eq (c₁.core_atDepth _)
    exact Or.inr ⟨target, hl, (hsteps.trans hback.steps).proceeds.target? haimed,
      fun hok => hback.steps.resolved (hr () (Engine.mapError_eq_ok.1 hok))⟩

/-- **A target is resolved, or was set by a call that failed.**  After any calls on a built context,
    all that the target of a part reference leads to is resolved, unless the target was set by a
    call that ended with an error.  A part reference without target has no text and no rows.  If
    its pass is refused or its key is missing, the pass leaves everything as it was; otherwise,
    even if the pass fails, the part reference has a target after it: the definition under its key,
    whose text and rows it shows.  What is added while the context is built finds its parent, and
    what is added by hand is not resolved and has no parts in other documents (`Edit.Applies`). -/
theorem targets_resolved (hbuilt : c₀.IsBuilt) (h : Session c₀ events c)
    (hcalls : ∀ e ∈ events, e.IsCall) {d : Definition} {reference : PartReference}
    (hd : c.definition? p = some d) (hk : d.kind = .partReference reference) :
    (∀ t, reference.target = some t → c.Resolved t ∨ SetByFailure c₀ events p t) ∧
    (reference.target = none → c.text? p = some "" ∧ c.rows? p = some 0 ∧
      ∀ r c', (Call.commands p).Ends c r c' →
        c' = c ∧ r ≠ .ok () ∧ (c.lookup? reference.targetKey d.document = none ∨
          ∃ limit, c.settings.depthLimit = some limit ∧ limit ≤ c.depth) ∨
        ∃ t, c.lookup? reference.targetKey d.document = some t ∧ c'.target? p = some t ∧
          c'.text? p = c'.text? t ∧ c'.rows? p = c'.rows? t ∧ (r = .ok () → c'.Resolved t)) := by
  refine ⟨fun t ht => ?_, fun hnone => ?_⟩
  · exact h.target_resolved hbuilt hcalls (target?_eq_some_reference.2 ⟨d, reference, hd, hk, ht⟩)
  · obtain ⟨htext, hrows⟩ := text?_of_no_target hd hk hnone
    refine ⟨htext, hrows, fun r c' hends => ?_⟩
    rcases aimed_of_commands (h.isSound hbuilt hcalls) hd hk hnone hends with
      hsame | ⟨t, hl, ht, hresolved⟩
    · exact Or.inl hsame
    · exact Or.inr ⟨t, hl, ht, text?_of_target ht, rows?_of_target ht, hresolved⟩

/-- The edits for a document with a part reference for the key `a`, and a stanza under that key. -/
def referenceTo (source : String) : List Edit :=
  [.addDocument "d" "D", .addVersion ⟨0⟩ (.ofKnown .coptic) none,
    .addPartReference ⟨0⟩ (some "p") "a", .addStandaloneStanza (some ⟨0⟩) (some "a") source]

/-- A part reference to a stanza of plain text: once its commands have been handled it has the
    stanza as target, which is resolved. -/
theorem targets_resolved_of_run :
    ∃ c₀ c : Context, ∃ events d reference, c₀.IsBuilt ∧ Session c₀ events c ∧
      (∀ e ∈ events, e.IsCall) ∧ c.definition? ⟨1⟩ = some d ∧
      d.kind = .partReference reference ∧ reference.target = some ⟨2⟩ ∧ c.Resolved ⟨2⟩ := by
  let c₀ := (referenceTo "x").foldl Edit.apply (.new {})
  let c := (Call.commands ⟨1⟩).run 3 c₀
  have hbuilt : c₀.IsBuilt := (Context.isBuilt_new {}).edits (by decide +kernel)
  have h : Session c₀ ([] ++ [.call (.commands ⟨1⟩) (.ok ())]) c :=
    .call .start (Call.ends_run (by decide +kernel))
  have hcalls : ∀ e ∈ [] ++ [Event.call (.commands ⟨1⟩) (.ok ())], e.IsCall := by
    simp [Event.IsCall]
  obtain ⟨d, reference, hd, hk, ht⟩ : ∃ d reference, c.definition? ⟨1⟩ = some d ∧
      d.kind = .partReference reference ∧ reference.target = some ⟨2⟩ :=
    target?_eq_some_reference.1 (by decide +kernel)
  refine ⟨c₀, c, _, d, reference, hbuilt, h, hcalls, hd, hk, ht, ?_⟩
  rcases (targets_resolved hbuilt h hcalls hd hk).1 ⟨2⟩ ht with
    hr | ⟨before, call, e, after, -, -, he, -⟩
  · exact hr
  · have hmem : Event.call call (.error e) ∈ [] ++ [.call (.commands ⟨1⟩) (.ok ())] := by
      rw [he]; simp
    simp at hmem

/-- A part reference to a stanza with the key of nothing: handling its commands fails, but leaves
    it with the stanza as target, whose commands are not handled, and with its text and its row. -/
theorem unresolved_target_of_failure :
    ∃ c₀ c : Context, ∃ e, c₀.IsBuilt ∧ (Call.commands ⟨1⟩).Ends c₀ (.error e) c ∧
      c₀.target? ⟨1⟩ = none ∧ c₀.text? ⟨1⟩ = some "" ∧ c₀.rows? ⟨1⟩ = some 0 ∧
      c.target? ⟨1⟩ = some ⟨2⟩ ∧ ¬ c.Resolved ⟨2⟩ ∧
      c.text? ⟨1⟩ = some "\\def\x7bx\x7d" ∧ c.rows? ⟨1⟩ = some 1 := by
  let c₀ := (referenceTo "\\def\x7bx\x7d").foldl Edit.apply (.new {})
  let c := (Call.commands ⟨1⟩).run 3 c₀
  obtain ⟨e, hcall⟩ : ∃ e, (Call.commands ⟨1⟩).Ends c₀ (.error e) c :=
    Call.ends_run_error (by decide +kernel)
  refine ⟨c₀, c, e, (Context.isBuilt_new {}).edits (by decide +kernel), hcall, by decide +kernel,
    by decide +kernel, by decide +kernel, by decide +kernel, fun hr => ?_, by decide +kernel,
    by decide +kernel⟩
  obtain ⟨d, hd, hresolved, -⟩ := resolved_iff.1 hr
  have hunread : ∀ d ∈ c.definition? ⟨2⟩, ∃ content ∈ d.kind.contents, ¬ content.IsHandled := by
    decide +kernel
  obtain ⟨content, hmem, hcontent⟩ := hunread d hd
  exact hcontent (hresolved.handled content hmem)

end Rubric
