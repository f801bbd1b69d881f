/-
  Rubric — what a failure leaves to others.

  The passes of the parts of a section are run one after the other whatever
  their results are, and so are those of the versions of a document; the first
  error is kept.  Only the two passes of one version are not: its fonts are
  converted if all its commands were handled.

  * `Engine.Turn`: where in a run of several computations one of them begins;
    `Engine.Attempts`: where in the command pass of a node that of a node in its
    section tree begins;
  * `Context.Contains`: the section tree of a node;
  * `settled_of_handleFonts`: a font pass converts what it can, however it ends;
  * **`failures_isolated`**: what becomes of the nodes of a document whose own
    commands were handled.
-/
import Rubric.Proofs.Closure
import Rubric.Proofs.FontFrame
import Rubric.Proofs.Frame

namespace Rubric

open Context

variable {c c₀ c' c₁ c₂ : Context} {id x y : DefinitionId} {n : Nat}

/-! ## One after the other -/

namespace Engine

/-- Of computations that are run one after the other from the first context, whatever their
    results are, `x` begins in the second one. -/
inductive Turn : List (Engine Unit) → Context → Engine Unit → Context → Prop
  | first {x : Engine Unit} {xs : List (Engine Unit)} {c : Context} : Turn (x :: xs) c x c
  | later {x y : Engine Unit} {xs : List (Engine Unit)} {r : Except Error Unit}
      {c c₁ c' : Context} : x.Gives c r c₁ → Turn xs c₁ y c' → Turn (x :: xs) c y c'

variable {xs : List (Engine Unit)} {z : Engine Unit} {r : Except Error Unit}

/-- In a run that ends every computation has its turn. -/
theorem exists_turn (h : (runAll xs).Gives c r c') (hz : z ∈ xs) : ∃ c₁, Turn xs c z c₁ := by
  induction xs generalizing c r with
  | nil => cases hz
  | cons x xs ih =>
    obtain ⟨r₁, c₁, r₂, h₁, h₂, -⟩ := gives_runAll_cons.1 h
    rcases List.mem_cons.1 hz with rfl | hz
    · exact ⟨c, .first⟩
    · obtain ⟨c₂, hturn⟩ := ih h₂ hz
      exact ⟨c₂, .later h₁ hturn⟩

/-- The computation whose turn it is ends, and others may follow. -/
theorem Turn.moves {R : Context → Context → Prop} (ht : Turn xs c z c₁) (hR : Composes R)
    (hxs : ∀ x ∈ xs, x.Moves R) (h : (runAll xs).Gives c r c') :
    R c c₁ ∧ ∃ r₁ c₂, z.Gives c₁ r₁ c₂ ∧ R c₂ c' := by
  induction ht generalizing r with
  | first =>
    obtain ⟨r₁, c₁, r₂, h₁, h₂, -⟩ := gives_runAll_cons.1 h
    have hrest := Moves.runAll hR fun x hx => hxs x (List.mem_cons_of_mem _ hx)
    exact ⟨hR.refl _, r₁, c₁, h₁, hrest _ _ _ h₂⟩
  | later hgives _ ih =>
    obtain ⟨r₁, c₁, r₂, h₁, h₂, -⟩ := gives_runAll_cons.1 h
    obtain ⟨-, rfl⟩ := Prod.mk.inj (Option.some.inj (hgives.symm.trans h₁))
    obtain ⟨hmoves, hend⟩ := ih (fun x hx => hxs x (List.mem_cons_of_mem _ hx)) h₂
    exact ⟨hR.trans (hxs _ (by simp) _ _ _ h₁) hmoves, hend⟩

/-- In the command pass of `id` from `c`, nested at most `n` deep, the pass of the node `x` in its
    section tree begins in `c'`, nested at most `m` deep. -/
inductive Attempts : Nat → DefinitionId → Context → Nat → DefinitionId → Context → Prop
  | self {n : Nat} {id : DefinitionId} {c : Context} : Attempts n id c n id c
  | part {n m : Nat} {id child x : DefinitionId} {d : Definition} {body : Section}
      {r : Except Error Unit} {c c₁ c₂ c' : Context} :
      c.definition? id = some d → d.kind = .section body →
      (runAll (body.title.toList.map (resolveContent (handleCommands n) id))).Gives
        (c.atDepth (c.depth + 1)) r c₁ →
      child ∈ body.children →
      Turn (body.children.map (handleCommands n)) c₁ (handleCommands n child) c₂ →
      Attempts n child c₂ m x c' → Attempts (n + 1) id c m x c'

end Engine

/-! ## Section trees -/

namespace Context

/-- The first definition is a section with the second one as a part. -/
def HasPart (c : Context) (x y : DefinitionId) : Prop :=
  ∃ d body, c.definition? x = some d ∧ d.kind = .section body ∧ y ∈ body.children

theorem hasPart_of_mem (h : y ∈ ((c.definition? x).map fun d => d.kind.children).getD []) :
    c.HasPart x y := by
  rcases hd : c.definition? x with _ | d
  · rw [hd] at h; cases h
  · rw [hd] at h
    replace h : y ∈ d.kind.children := h
    rcases hk : d.kind with body | _ | _ | _ | _ | _ | _ <;> rw [hk] at h
    case «section» => exact ⟨d, body, hd, hk, h⟩
    all_goals cases h

/-- The second definition stands in the section tree of the first. -/
def Contains (c : Context) : DefinitionId → DefinitionId → Prop :=
  Relation.ReflTransGen c.HasPart

theorem HasPart.links (h : c.HasPart x y) : c.Links x y := by
  obtain ⟨d, body, hd, hk, hy⟩ := h
  exact ⟨d, hd, DefinitionKind.mem_links_of_child (by rw [hk]; exact hy)⟩

theorem Contains.reaches (h : c.Contains x y) : c.Reaches x y :=
  Relation.ReflTransGen.mono (fun _ _ h => h.links) _ _ h

/-- What both passes may go on from: a sound context without a depth limit. -/
structure IsOpen (c : Context) : Prop where
  sound : c.IsSound
  unlimited : c.settings.depthLimit = none

/-- From a sound context without a limit, steps lead to such a context. -/
def Continues (c c' : Context) : Prop :=
  c.IsOpen → Proceeds c c' ∧ c'.IsOpen

theorem composes_continues : Engine.Composes Continues where
  refl _ h := ⟨.refl, h⟩
  trans h h' hc := by
    obtain ⟨hproceeds, hc₁⟩ := h hc
    obtain ⟨hproceeds', hc₂⟩ := h' hc₁
    exact ⟨hproceeds.trans hproceeds', hc₂⟩

theorem IsOpen.atDepth (h : c.IsOpen) (depth : Nat) :
    Proceeds c (c.atDepth depth) ∧ (c.atDepth depth).IsOpen := by
  have hstep : Step .commands c (c.atDepth depth) := .of_core_eq (c.core_atDepth depth)
  exact ⟨hstep.steps.proceeds, hstep.isSound h.sound, h.unlimited⟩

/-- Steps leave sections their parts. -/
theorem Proceeds.hasPart (h : Proceeds c c') (hx : c.HasPart x y) : c'.HasPart x y := by
  refine h.keeps (P := fun c => c.HasPart x y) ?_ hx
  rintro pass c c' hs ⟨d, body, hd, hk, hy⟩
  obtain ⟨references, kind, hd', hkind⟩ := hs.old hd
  have hchildren := hkind.children_eq
  rw [hk] at hchildren
  -- only sections have parts
  rcases hk' : kind with body' | _ | _ | _ | _ | _ | _ <;> rw [hk'] at hchildren
  case «section» =>
    exact ⟨_, body', hd', hk', by rw [show body'.children = body.children from hchildren]; exact hy⟩
  all_goals
    rw [show body.children = [] from hchildren.symm] at hy
    cases hy

theorem Proceeds.contains (h : Proceeds c c') (hx : c.Contains x y) : c'.Contains x y :=
  Relation.ReflTransGen.mono (fun _ _ hy => h.hasPart hy) _ _ hx

end Context

/-! ## Passes -/

theorem continues_handleCommands (n : Nat) (id : DefinitionId) :
    (Engine.handleCommands n id).Moves Continues := by
  intro c r c' h hc
  obtain ⟨hs, hsteps, -⟩ := secures_handleCommands n id _ _ _ hc.sound h
  have hsettings := (extends_handleCommands n id _ _ _ h).settings
  exact ⟨hsteps.proceeds, hs, by rw [hsettings]; exact hc.unlimited⟩

theorem continues_handleFonts (n : Nat) (id : DefinitionId) :
    (Engine.handleFonts n id).Moves Continues := by
  intro c r c' h hc
  obtain ⟨hs, hsteps, -⟩ := secures_handleFonts n id _ _ _ hc.sound h
  have hsettings := settings_of_unresolved_eq (converts_handleFonts n id _ _ _ h).written
  exact ⟨hsteps.proceeds, hs, by rw [hsettings]; exact hc.unlimited⟩

/-- Without a limit a nested computation is never refused. -/
theorem Context.IsOpen.gives_nested {frame : Frame} {z : Engine Unit} {r : Except Error Unit}
    (hc : c.IsOpen) (h : (Engine.nested frame z).Gives c r c') :
    ∃ r₁ c₁, z.Gives (c.atDepth (c.depth + 1)) r₁ c₁ ∧
      r = (r₁.mapError fun e => e.within frame) ∧ c' = c₁.atDepth (c₁.depth - 1) := by
  rcases Engine.gives_nested h with ⟨limit, hlimit, -⟩ | h
  · rw [hc.unlimited] at hlimit
    cases hlimit
  · exact h

/-! ## The command pass -/

section
variable {d : Definition} {body : Section} {r : Except Error Unit}

/-- The command pass of a section: its title, then all its parts. -/
theorem Context.IsOpen.gives_section (hc : c.IsOpen) (hd : c.definition? id = some d)
    (hk : d.kind = .section body) (h : (Engine.handleCommands (n + 1) id).Gives c r c') :
    ∃ r₁ c₁ r₂ c₂,
      (Engine.runAll (body.title.toList.map (Engine.resolveContent (Engine.handleCommands n) id))).Gives
        (c.atDepth (c.depth + 1)) r₁ c₁ ∧
      (Engine.runAll (body.children.map (Engine.handleCommands n))).Gives c₁ r₂ c₂ ∧
      Continues (c.atDepth (c.depth + 1)) c₁ ∧ c' = c₂.atDepth (c₂.depth - 1) := by
  rw [Engine.handleCommands, Engine.gives_definition_bind] at h
  obtain ⟨_, -, h⟩ := h
  obtain ⟨r₀, c₂, hpass, -, rfl⟩ := hc.gives_nested h
  rw [Engine.commandPass, Engine.gives_definition_bind] at hpass
  obtain ⟨d', hd', hpass⟩ := hpass
  cases hd.symm.trans hd'
  simp only [hk] at hpass
  obtain ⟨r₁, c₁, r₂, htitle, hparts, -⟩ := Engine.gives_runAll_append hpass
  refine ⟨r₁, c₁, r₂, c₂, htitle, hparts, fun hopen => ?_, rfl⟩
  rcases ht : body.title with _ | title
  · rw [ht] at htitle
    obtain ⟨-, rfl⟩ := Engine.gives_pure.1 htitle
    exact ⟨.refl, hopen⟩
  · rw [ht] at htitle
    have htitle := Engine.gives_runAll_singleton.1 htitle
    have hmem : title ∈ d.kind.contents := by simp [hk, DefinitionKind.contents, ht]
    have hsteps := (steps_resolveContent (secures_handleCommands n) hopen.sound hd hmem htitle).1
    have hd₁ : (c.atDepth (c.depth + 1)).definition? id = some d := hd
    have hsettings := (extends_resolveContent (extends_handleCommands n) hd₁ hmem htitle).settings
    exact ⟨hsteps.proceeds, hsteps.isSound hopen.sound, by rw [hsettings]; exact hopen.unlimited⟩

/-- The command pass of every node in the section tree is attempted. -/
theorem exists_attempts (h₀ : Proceeds c₀ c) (hc : c.IsOpen) (hx : c₀.Contains id x)
    (h : (Engine.handleCommands n id).Gives c r c') : ∃ m c₁, Engine.Attempts n id c m x c₁ := by
  induction hx using Relation.ReflTransGen.head_induction_on generalizing n c r c' with
  | refl => exact ⟨n, c, .self⟩
  | @head id child hchild hx ih =>
    obtain ⟨d, body, hd, hk, hmem⟩ := h₀.hasPart hchild
    rcases n with _ | n
    · exact (Engine.gives_endless.1 h).elim
    obtain ⟨r₁, c₁, r₂, c₂, htitle, hparts, hcontinues, -⟩ := hc.gives_section hd hk h
    obtain ⟨c₃, hturn⟩ := Engine.exists_turn hparts (List.mem_map_of_mem hmem)
    obtain ⟨hdeeper, hopen⟩ := hc.atDepth (c.depth + 1)
    obtain ⟨hproceeds, hopen₁⟩ := hcontinues hopen
    obtain ⟨hbefore, r₃, c₄, hends, -⟩ := hturn.moves composes_continues
      (List.forall_mem_map.2 fun child _ => continues_handleCommands n child) hparts
    obtain ⟨hproceeds', hopen₃⟩ := hbefore hopen₁
    obtain ⟨m, c₅, hattempts⟩ :=
      ih (((h₀.trans hdeeper).trans hproceeds).trans hproceeds') hopen₃ hends
    exact ⟨m, c₅, .part hd hk htitle hmem hturn hattempts⟩

/-- A node whose command pass is attempted has it run to its end, and others may follow. -/
theorem Engine.Attempts.gives {m : Nat} (ha : Engine.Attempts n id c m x c₁) (hc : c.IsOpen)
    (h : (Engine.handleCommands n id).Gives c r c') :
    c₁.IsOpen ∧ ∃ r₁ c₂, (Engine.handleCommands m x).Gives c₁ r₁ c₂ ∧ Continues c₂ c' := by
  induction ha generalizing r c' with
  | self => exact ⟨hc, r, c', h, composes_continues.refl _⟩
  | @part n m id child x d body r₀ c c₁ c₂ c₃ hd hk htitle hmem hturn _ ih =>
    obtain ⟨r₁, c₁', r₂, c₄, htitle', hparts, hcontinues, rfl⟩ := hc.gives_section hd hk h
    obtain ⟨-, rfl⟩ := Prod.mk.inj (Option.some.inj (htitle.symm.trans htitle'))
    obtain ⟨-, hopen₁⟩ := hcontinues (hc.atDepth _).2
    obtain ⟨hbefore, r₃, c₅, hends, hafter⟩ := hturn.moves composes_continues
      (List.forall_mem_map.2 fun child _ => continues_handleCommands n child) hparts
    obtain ⟨hopen, r₄, c₆, hgives, hthen⟩ := ih (hbefore hopen₁).2 hends
    have hleave : Continues c₄ (c₄.atDepth (c₄.depth - 1)) := fun hc => hc.atDepth _
    have hthen := composes_continues.trans hthen hafter
    exact ⟨hopen, r₄, c₆, hgives, composes_continues.trans hthen hleave⟩

end

/-! ## The font pass -/

theorem Context.Converts.unlimited (h : Converts c c') (hc : c.settings.depthLimit = none) :
    c'.settings.depthLimit = none := by
  rw [settings_of_unresolved_eq h.written, hc]

/-- Without a depth limit, the computation fails only where commands are not handled. -/
def Engine.FailsEarly (z : Engine Unit) : Prop :=
  ∀ c e c', c.settings.depthLimit = none → z.Gives c (.error e) c' → e.cause.kind = .ordering

section
variable {handle : DefinitionId → Engine Unit} {d : Definition}
  (hconverts : ∀ id, (handle id).Moves Converts) (hh : ∀ id, (handle id).FailsEarly)
include hconverts hh

theorem failsEarly_each {z : Engine Unit} {ids : List DefinitionId}
    (hz : z = ids.forM handle ∨ z = Engine.runAll (ids.map handle)) : z.FailsEarly := by
  rcases hz with rfl | rfl
  · induction ids with
    | nil => intro c e c' _ h; cases (Engine.gives_pure.1 h).1
    | cons id ids ih =>
      intro c e c' hc h
      rcases Engine.gives_bind.1 h with ⟨_, c₁, h₁, h₂⟩ | ⟨e', h₁, he⟩
      · exact ih _ _ _ ((hconverts id _ _ _ h₁).unlimited hc) h₂
      · cases he
        exact hh id _ _ _ hc h₁
  · induction ids with
    | nil => intro c e c' _ h; cases (Engine.gives_pure.1 h).1
    | cons id ids ih =>
      intro c e c' hc h
      obtain ⟨r₁, c₁, r₂, h₁, h₂, he⟩ := Engine.gives_runAll_cons.1 h
      rcases r₁ with e₁ | ⟨⟨⟩⟩ <;> cases he
      · exact hh id _ _ _ hc h₁
      · exact ih _ _ _ ((hconverts id _ _ _ h₁).unlimited hc) h₂

theorem failsEarly_convert {targets : List DefinitionId → Engine Unit}
    (ht : ∀ ids, targets ids = ids.forM handle ∨ targets ids = Engine.runAll (ids.map handle))
    (id : DefinitionId) (content : Content) : (Engine.convert targets id content).FailsEarly := by
  intro c e c' hc h
  unfold Engine.convert at h
  split at h
  · cases (Engine.gives_fail.1 h).1
    rfl
  · cases (Engine.gives_pure.1 h).1
  · rcases Engine.gives_bind.1 h with ⟨_, c₁, -, h⟩ | ⟨e, h, he⟩
    · obtain ⟨_, _, _, -, -, he, -⟩ := Engine.gives_convertContent h
      cases he
    · cases he
      exact failsEarly_each hconverts hh (ht _) _ _ _ hc h

theorem failsEarly_fontPass (id : DefinitionId) : (Engine.fontPass handle id).FailsEarly := by
  intro c e c' hc h
  rw [Engine.fontPass, Engine.gives_definition_bind] at h
  obtain ⟨d, hd, h⟩ := h
  split at h
  case h_1 | h_2 => exact failsEarly_convert hconverts hh (fun _ => Or.inl rfl) id _ _ _ _ hc h
  case h_3 body hk =>
    have hall : ∀ ids : List DefinitionId, Engine.runAll (ids.map handle) = ids.forM handle ∨
        Engine.runAll (ids.map handle) = Engine.runAll (ids.map handle) := fun _ => Or.inr rfl
    obtain ⟨r₁, c₁, r₂, htitle, hparts, he⟩ := Engine.gives_runAll_toList_append h
    have hc₁ : c₁.settings.depthLimit = none := by
      rcases htitle with ⟨-, -, rfl⟩ | ⟨title, hmem, htitle⟩
      · exact hc
      · have hcontent : title ∈ d.kind.contents := by rw [hk]; exact hmem
        exact (converts_convert
          (fun ids => Engine.each_moves composes_converts hconverts (hall ids))
          hd hcontent htitle).unlimited hc
    rcases r₁ with e₁ | ⟨⟨⟩⟩ <;> cases he
    · rcases htitle with ⟨-, he, -⟩ | ⟨title, -, htitle⟩
      · cases he
      · exact failsEarly_convert hconverts hh hall id _ _ _ _ hc htitle
    · exact failsEarly_each hconverts hh (Or.inr rfl) _ _ _ hc₁ hparts
  case h_4 reference hk =>
    split at h
    · exact hh _ _ _ _ hc h
    · cases (Engine.gives_fail.1 h).1
      rfl
  all_goals cases (Engine.gives_pure.1 h).1

end

/-- Without a depth limit, the font pass fails only where commands are not handled. -/
theorem failsEarly_handleFonts (n : Nat) (id : DefinitionId) :
    (Engine.handleFonts n id).FailsEarly := by
  induction n generalizing id with
  | zero =>
    intro c e c' _ h
    exact (Engine.gives_endless.1 h).elim
  | succ n ih =>
    intro c e c' hc h
    rw [Engine.handleFonts, Engine.gives_definition_bind] at h
    obtain ⟨d, -, h⟩ := h
    rcases Engine.gives_nested h with ⟨limit, hlimit, -⟩ | ⟨r₁, c₁, h₁, he, -⟩
    · cases hc.symm.trans hlimit
    · rcases r₁ with e₁ | ⟨⟨⟩⟩
      · have hdeeper : (c.atDepth (c.depth + 1)).settings.depthLimit = none := hc
        have hearly := failsEarly_fontPass (converts_handleFonts n) ih id _ _ _ hdeeper h₁
        cases he
        exact hearly
      · cases he

/-- The font pass of a resolved definition ends with a value. -/
theorem Context.IsOpen.handleFonts_ok {r : Except Error Unit} (hc : c.IsOpen)
    (hr : c.Resolved id) (h : (Engine.handleFonts n id).Gives c r c') : r = .ok () := by
  rcases r with e | ⟨⟨⟩⟩
  · exact absurd (failsEarly_handleFonts n id _ _ _ hc.unlimited h)
      (spares_handleFonts n id hc.sound hr _ _ h)
  · rfl

/-- The font pass of a section: its title, then all its parts. -/
theorem Context.IsOpen.gives_sectionFonts {d : Definition} {body : Section} {r : Except Error Unit}
    (hc : c.IsOpen) (hd : c.definition? id = some d) (hk : d.kind = .section body)
    (h : (Engine.handleFonts (n + 1) id).Gives c r c') :
    ∃ c₁ r₂ c₂, Continues (c.atDepth (c.depth + 1)) c₁ ∧
      (Engine.runAll (body.children.map (Engine.handleFonts n))).Gives c₁ r₂ c₂ ∧
      c' = c₂.atDepth (c₂.depth - 1) := by
  rw [Engine.handleFonts, Engine.gives_definition_bind] at h
  obtain ⟨_, -, h⟩ := h
  obtain ⟨r₀, c₂, hpass, -, rfl⟩ := hc.gives_nested h
  rw [Engine.fontPass, Engine.gives_definition_bind] at hpass
  obtain ⟨d', hd', hpass⟩ := hpass
  cases hd.symm.trans hd'
  simp only [hk] at hpass
  obtain ⟨r₁, c₁, r₂, htitle, hparts, -⟩ := Engine.gives_runAll_toList_append hpass
  refine ⟨c₁, r₂, c₂, fun hopen => ?_, hparts, rfl⟩
  rcases htitle with ⟨-, -, rfl⟩ | ⟨title, hmem, htitle⟩
  · exact ⟨.refl, hopen⟩
  · have hcontent : title ∈ d.kind.contents := by rw [hk]; exact hmem
    have hsteps := (steps_convert (fun ids => secures_runAll_handle (secures_handleFonts n) ids)
      hopen.sound hd' hcontent htitle).1
    have hconverts := converts_convert
      (fun ids => Engine.each_moves composes_converts (converts_handleFonts n) (Or.inr rfl))
      hd' hcontent htitle
    exact ⟨hsteps.proceeds, hsteps.isSound hopen.sound, hconverts.unlimited hopen.unlimited⟩

/-- **A font pass converts what it can.**  However the font pass of a node ends, in its section
    tree the fonts of what was resolved are converted, all the way. -/
theorem settled_of_handleFonts {r : Except Error Unit} (h₀ : Proceeds c₀ c) (hc : c.IsOpen)
    (hx : c₀.Contains id x) (hr : c₀.Resolved x) (h : (Engine.handleFonts n id).Gives c r c') :
    c'.Settled x := by
  induction hx using Relation.ReflTransGen.head_induction_on generalizing n c r c' with
  | refl =>
    exact (secures_handleFonts n _ _ _ _ hc.sound h).2.2 () (hc.handleFonts_ok (h₀.resolved hr) h)
  | @head id child hchild hx ih =>
    obtain ⟨d, body, hd, hk, hmem⟩ := h₀.hasPart hchild
    rcases n with _ | n
    · exact (Engine.gives_endless.1 h).elim
    obtain ⟨c₁, r₂, c₂, hcontinues, hparts, rfl⟩ := hc.gives_sectionFonts hd hk h
    obtain ⟨hdeeper, hopen⟩ := hc.atDepth (c.depth + 1)
    obtain ⟨hproceeds, hopen₁⟩ := hcontinues hopen
    obtain ⟨c₃, hturn⟩ := Engine.exists_turn hparts (List.mem_map_of_mem hmem)
    obtain ⟨hbefore, r₃, c₄, hends, hafter⟩ := hturn.moves composes_continues
      (List.forall_mem_map.2 fun child _ => continues_handleFonts n child) hparts
    obtain ⟨hproceeds', hopen₃⟩ := hbefore hopen₁
    have hsettled := ih (((h₀.trans hdeeper).trans hproceeds).trans hproceeds') hopen₃ hends
    obtain ⟨hrest, hopen₂⟩ := hafter (continues_handleFonts n child _ _ _ hends hopen₃).2
    exact (hopen₂.atDepth _).1.settled (hrest.settled hsettled)

/-! ## Documents -/

namespace Engine

/-- Both passes for one version of a document, the second one if the first one succeeds. -/
def resolveVersion (n : Nat) (version : Version) : Engine Unit := do
  handleCommands n version.root
  handleFonts n version.root

theorem gives_resolveDocument {document : DocumentId} {r : Except Error Unit} :
    (resolveDocument n document).Gives c r c' ↔ ∃ d, c.document? document = some d ∧
      (runAll (d.versions.map (resolveVersion n))).Gives c r c' := by
  rw [resolveDocument, gives_get_bind, gives_ofOption_bind]
  rfl

end Engine

theorem continues_resolveVersion (n : Nat) (version : Version) :
    (Engine.resolveVersion n version).Moves Continues :=
  .bind composes_continues (continues_handleCommands n version.root) fun _ =>
    continues_handleFonts n version.root

/-- Both passes for a version: the command pass of its root is run, and if it succeeds the font
    pass does so too. -/
theorem Context.IsOpen.gives_resolveVersion {version : Version} {r : Except Error Unit}
    (hc : c.IsOpen) (h : (Engine.resolveVersion n version).Gives c r c') :
    ∃ r₁ c₁, (Engine.handleCommands n version.root).Gives c r₁ c₁ ∧ Continues c₁ c' ∧
      (r₁ = .ok () → r = .ok () ∧ c'.Settled version.root) := by
  rcases Engine.gives_bind.1 h with ⟨_, c₁, h₁, h₂⟩ | ⟨e, h₁, rfl⟩
  · obtain ⟨hs, -, hresolved⟩ := secures_handleCommands n version.root _ _ _ hc.sound h₁
    have hopen := (continues_handleCommands n _ _ _ _ h₁ hc).2
    have hok := hopen.handleFonts_ok (hresolved () rfl) h₂
    obtain ⟨-, -, hsettled⟩ := secures_handleFonts n version.root _ _ _ hs h₂
    exact ⟨_, c₁, h₁, continues_handleFonts n version.root _ _ _ h₂, fun _ =>
      ⟨hok, hsettled () hok⟩⟩
  · exact ⟨_, c', h₁, composes_continues.refl _, by simp⟩

/-- **A failure is kept to itself.**  Both passes are run for the versions of a document of a built
    context without a depth limit, and end with whatever result.  The root of each version has its
    turn, and so has every node in its section tree.  A node whose own command pass succeeded is
    resolved in the end; where that of the root did so, all nodes of the version are converted; and
    where it did not, the font pass of the root converts all nodes whose own command passes
    succeeded.  What is added while the context is built finds its parent, and what is added by
    hand is not resolved and has no parts in other documents (`Edit.Applies`). -/
theorem failures_isolated {document : DocumentId} {d : Document} {r : Except Error Unit}
    (hbuilt : c.IsBuilt) (hlimit : c.settings.depthLimit = none)
    (hd : c.document? document = some d)
    (hends : (Engine.resolveDocument n document).Gives c r c') :
    ∀ version ∈ d.versions,
      (∃ c₀, Engine.Turn (d.versions.map (Engine.resolveVersion n)) c
        (Engine.resolveVersion n version) c₀) ∧
      ∀ c₀, Engine.Turn (d.versions.map (Engine.resolveVersion n)) c
          (Engine.resolveVersion n version) c₀ →
        ∃ r₀ c₁, (Engine.handleCommands n version.root).Gives c₀ r₀ c₁ ∧
          ∀ x, c.Contains version.root x →
            (∃ m c₂, Engine.Attempts n version.root c₀ m x c₂) ∧
            (r₀ = .ok () → c'.Settled x) ∧
            ∀ m c₂, Engine.Attempts n version.root c₀ m x c₂ →
              ∃ r₂ c₃, (Engine.handleCommands m x).Gives c₂ r₂ c₃ ∧ (r₂ = .ok () →
                c'.Resolved x ∧ ∀ r' c'', (Call.fonts version.root).Ends c' r' c'' →
                  c''.Settled x) := by
  intro version hversion
  have hc : c.IsOpen := ⟨hbuilt.isFresh.isSound, hlimit⟩
  obtain ⟨_, hd', hall⟩ := Engine.gives_resolveDocument.1 hends
  cases hd.symm.trans hd'
  have hmoves : ∀ z ∈ d.versions.map (Engine.resolveVersion n), z.Moves Continues :=
    List.forall_mem_map.2 fun version _ => continues_resolveVersion n version
  refine ⟨Engine.exists_turn hall (List.mem_map_of_mem hversion), fun c₀ hturn => ?_⟩
  obtain ⟨hbefore, r₁, c₂, hends, hafter⟩ := hturn.moves composes_continues hmoves hall
  obtain ⟨hproceeds, hc₀⟩ := hbefore hc
  obtain ⟨r₀, c₁, hcommands, hcontinues, hsettled⟩ := hc₀.gives_resolveVersion hends
  obtain ⟨hproceeds₁, hc₁⟩ := continues_handleCommands n _ _ _ _ hcommands hc₀
  obtain ⟨hproceeds₂, hc₂⟩ := hcontinues hc₁
  obtain ⟨hlast, hc'⟩ := hafter hc₂
  have hto : Proceeds c c₁ := hproceeds.trans hproceeds₁
  have hon : Proceeds c₁ c' := hproceeds₂.trans hlast
  refine ⟨r₀, c₁, hcommands, fun x hx => ⟨exists_attempts hproceeds hc₀ hx hcommands,
    fun hok => ?_, fun m c₃ hattempts => ?_⟩⟩
  · have hreaches := (hon.contains (hto.contains hx)).reaches
    exact (hlast.settled (hsettled hok).2).reaches hreaches
  · obtain ⟨hc₃, r₂, c₄, hgives, hthen⟩ := hattempts.gives hc₀ hcommands
    obtain ⟨hs₄, -, hresolved⟩ := secures_handleCommands m x _ _ _ hc₃.sound hgives
    have hc₄ := (continues_handleCommands m x _ _ _ hgives hc₃).2
    refine ⟨r₂, c₄, hgives, fun hok => ?_⟩
    have hresolved' : c'.Resolved x := hon.resolved ((hthen hc₄).1.resolved (hresolved () hok))
    refine ⟨hresolved', fun r' c'' hfonts => ?_⟩
    obtain ⟨k, hfonts⟩ := hfonts
    exact settled_of_handleFonts .refl hc' (hon.contains (hto.contains hx)) hresolved' hfonts

/-- The first part of a section without a title is attempted first, one level deeper. -/
theorem attempts_of_first {d : Definition} {children : List DefinitionId}
    (hd : c.definition? id = some d) (hk : d.kind = .section { children := x :: children }) :
    Engine.Attempts (n + 1) id c n x (c.atDepth (c.depth + 1)) :=
  .part hd hk (Engine.gives_pure.2 ⟨rfl, rfl⟩) (by simp) .first .self

/-- A version has a stanza that fails after one that does not, and another version follows: the
    first stanza is resolved, a font pass of the first version would convert it, and the other
    version is converted. -/
theorem failures_isolated_of_missing_key :
    ∃ c c' : Context, ∃ r, c.IsBuilt ∧ (Engine.resolveDocument 4 ⟨0⟩).Gives c r c' ∧
      r.isOk = false ∧ c'.Resolved ⟨1⟩ ∧ c'.Settled ⟨4⟩ ∧
      ∀ r c'', (Call.fonts ⟨0⟩).Ends c' r c'' → c''.Settled ⟨1⟩ := by
  let c := [Edit.addDocument "d" "D", .addVersion ⟨0⟩ (.ofKnown .coptic) (some "CS Avva Shenouda"),
    .addStanza ⟨0⟩ none "x", .addStanza ⟨0⟩ none "\\def\x7ba\x7d",
    .addVersion ⟨0⟩ (.ofKnown .english) none, .addStanza ⟨3⟩ none "y"].foldl Edit.apply (.new {})
  have hbuilt : c.IsBuilt := (isBuilt_new {}).edits (by decide +kernel)
  obtain ⟨d, hd, hversions⟩ : ∃ d ∈ c.document? ⟨0⟩, d.versions =
      [⟨.ofKnown .coptic, some "CS Avva Shenouda", ⟨0⟩⟩, ⟨.ofKnown .english, none, ⟨3⟩⟩] := by
    decide +kernel
  -- what passes give, by computation
  obtain ⟨r, hends, hr⟩ := Call.gives_run (show ((Call.pass 4 (.document ⟨0⟩)).answer? c).map
    (·.1.isOk) = some false by decide +kernel)
  obtain ⟨r₀, hfails, hr₀⟩ := Call.gives_run (show ((Call.pass 4 (.commands ⟨0⟩)).answer? c).map
    (·.1.isOk) = some false by decide +kernel)
  obtain ⟨r₁, hstanza, hr₁⟩ := Call.gives_run (show ((Call.pass 3 (.commands ⟨1⟩)).answer?
    (c.atDepth 1)).map (·.1.isOk) = some true by decide +kernel)
  obtain ⟨r₂, hother, hr₂⟩ := Call.gives_run (show ((Call.pass 4 (.commands ⟨3⟩)).answer?
    ((Call.commands ⟨0⟩).run 4 c)).map (·.1.isOk) = some true by decide +kernel)
  have hok : ∀ {r : Except Error Unit}, r.isOk = true → r = .ok () := by
    rintro (_ | ⟨⟨⟩⟩) hr
    · cases hr
    · rfl
  have h := failures_isolated hbuilt rfl hd hends
  simp only [hversions, List.map_cons, List.map_nil, List.forall_mem_cons] at h
  obtain ⟨⟨-, hcoptic⟩, ⟨-, henglish⟩, -⟩ := h
  obtain ⟨_, _, -, hfirst⟩ := hcoptic c .first
  obtain ⟨-, -, hown⟩ := hfirst ⟨1⟩ (.single (hasPart_of_mem (by decide +kernel)))
  obtain ⟨_, _, hgives, hresolved⟩ := hown 3 _ (attempts_of_first rfl rfl)
  obtain ⟨rfl, -⟩ := Prod.mk.inj (Option.some.inj (hgives.symm.trans hstanza))
  obtain ⟨hresolved, hfonts⟩ := hresolved (hok hr₁)
  have hturn : (Engine.resolveVersion 4 ⟨.ofKnown .coptic, some "CS Avva Shenouda", ⟨0⟩⟩).Gives c r₀
      ((Call.commands ⟨0⟩).run 4 c) := by
    rcases r₀ with e | a
    · exact Engine.gives_bind.2 (Or.inr ⟨e, hfails, rfl⟩)
    · cases hr₀
  obtain ⟨_, _, hgives', hsecond⟩ := henglish _ (.later hturn .first)
  obtain ⟨rfl, -⟩ := Prod.mk.inj (Option.some.inj (hgives'.symm.trans hother))
  obtain ⟨-, hsettled, -⟩ := hsecond ⟨4⟩ (.single (hasPart_of_mem (by decide +kernel)))
  exact ⟨c, _, r, hbuilt, hends, hr, hresolved, hsettled (hok hr₂), hfonts⟩

/-- A stanza whose command pass succeeds and whose font pass would do so stays unconverted, since
    another one of its version fails. -/
theorem not_converted_of_missing_key :
    ∃ c c' : Context, ∃ e d, c.IsBuilt ∧ c.settings.depthLimit = none ∧
      (Call.document ⟨0⟩).Ends c (.error e) c' ∧ c.Contains ⟨0⟩ ⟨1⟩ ∧
      (∃ m c₂ c₃, Engine.Attempts 4 ⟨0⟩ c m ⟨1⟩ c₂ ∧
        (Engine.handleCommands m ⟨1⟩).Gives c₂ (.ok ()) c₃) ∧
      (∃ c'', (Call.fonts ⟨1⟩).Ends c' (.ok ()) c'') ∧
      c'.definition? ⟨1⟩ = some d ∧ ∃ content ∈ d.kind.contents, ¬ content.IsConverted := by
  let c := [Edit.addDocument "d" "D", .addVersion ⟨0⟩ (.ofKnown .coptic) none,
    .addStanza ⟨0⟩ none "x", .addStanza ⟨0⟩ none "\\def\x7ba\x7d"].foldl Edit.apply (.new {})
  let c' := (Call.document ⟨0⟩).run 4 c
  obtain ⟨e, hends⟩ : ∃ e, (Call.document ⟨0⟩).Ends c (.error e) c' :=
    Call.ends_run_error (by decide +kernel)
  obtain ⟨r, hgives, hr⟩ := Call.gives_run (show ((Call.pass 3 (.commands ⟨1⟩)).answer?
    (c.atDepth 1)).map (·.1.isOk) = some true by decide +kernel)
  rcases r with _ | ⟨⟨⟩⟩
  · cases hr
  obtain ⟨d, hd, content, hmem, hstage⟩ : ∃ d ∈ c'.definition? ⟨1⟩, ∃ content ∈ d.kind.contents,
      (match content.stage with | .commandsResolved _ => true | _ => false) = true := by
    decide +kernel
  refine ⟨c, c', e, d, (isBuilt_new {}).edits (by decide +kernel), rfl, hends,
    .single (hasPart_of_mem (by decide +kernel)), ⟨3, _, _, attempts_of_first rfl rfl, hgives⟩,
    ⟨_, Call.ends_run (n := 4) (by decide +kernel)⟩, hd, content, hmem, ?_⟩
  rintro ⟨l, hl⟩
  rw [hl] at hstage
  cases hstage

end Rubric
