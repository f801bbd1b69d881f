/-
  Rubric — passes that have nothing to do.

  A pass that has ended with a value leaves its node at rest: the node, its
  parts and their parts are done, and the depth limit lets a pass go through
  them.  No call disturbs this, and from then on the pass changes nothing.

  * `DefinitionKind.IsDone`, `Context.RestsWithin`, `Context.Rests`: what is at
    rest under a pass;
  * `Context.Keeps`: what every call leaves of what is done;
  * `Pass.rests_of_handle`: what a pass leaves is at rest;
  * `Pass.handle_of_rests`: the pass of what is at rest changes nothing;
  * **`unchanged_of_repeated`**: a pass that has ended with a value changes nothing
    when it is repeated, whatever calls were made in between.
-/
import Rubric.Proofs.Allowance
import Rubric.Proofs.FontFrame
import Rubric.Proofs.Frame

namespace Rubric

open Context

variable {c c' c₁ c₂ : Context} {id : DefinitionId} {pass : Pass}

/-! ## Definitions that are done -/

namespace DefinitionKind

/-- The text is done under a pass. -/
def TextIsDone (pass : Pass) (content : Content) : Prop :=
  match pass with
  | .commands => content.IsHandled
  | .fonts => content.IsConverted

/-- The pass has nothing to do at the definition itself. -/
structure IsDone (pass : Pass) (kind : DefinitionKind) : Prop where
  contents : ∀ content ∈ kind.contents, TextIsDone pass content
  aimed : kind.IsAimed

/-- The definitions that a pass goes on to from one where it has nothing to do. -/
def parts (kind : DefinitionKind) : List DefinitionId :=
  kind.children ++ kind.target?.toList

/-- What every pass leaves of what is done in a definition. -/
structure Keeps (kind kind' : DefinitionKind) : Prop where
  children : kind'.children = kind.children
  target : ∀ t, kind.target? = some t → kind'.target? = some t
  aimed : kind.IsAimed → kind'.IsAimed ∧ (kind.target? = none → kind'.target? = none)
  contents : ∀ pass, (∀ content ∈ kind.contents, TextIsDone pass content) →
    ∀ content ∈ kind'.contents, TextIsDone pass content

variable {kind kind' kind₂ : DefinitionKind}

theorem TextIsDone.isHandled {content : Content} (h : TextIsDone pass content) :
    content.IsHandled := by
  cases pass with
  | commands => exact h
  | fonts =>
    obtain ⟨inlines, hi⟩ := h
    rw [Content.IsHandled, hi]
    rintro ⟨⟩

theorem Keeps.refl (kind : DefinitionKind) : kind.Keeps kind where
  children := rfl
  target _ h := h
  aimed h := ⟨h, id⟩
  contents _ h := h

/-- What is done stays so and goes on to the same definitions. -/
theorem Keeps.isDone (h : kind.Keeps kind') (hd : kind.IsDone pass) :
    kind'.IsDone pass ∧ kind'.parts = kind.parts := by
  obtain ⟨haimed, hnone⟩ := h.aimed hd.aimed
  refine ⟨⟨h.contents pass hd.contents, haimed⟩, ?_⟩
  have htarget : kind'.target? = kind.target? := by
    rcases ht : kind.target? with _ | t
    · exact hnone ht
    · exact h.target t ht
  rw [parts, parts, h.children, htarget]

theorem Keeps.trans (h : kind.Keeps kind') (h' : kind'.Keeps kind₂) : kind.Keeps kind₂ where
  children := h'.children.trans h.children
  target t ht := h'.target t (h.target t ht)
  aimed ha := by
    obtain ⟨ha₁, hnone₁⟩ := h.aimed ha
    obtain ⟨ha₂, hnone₂⟩ := h'.aimed ha₁
    exact ⟨ha₂, fun hnone => hnone₂ (hnone₁ hnone)⟩
  contents pass hc := h'.contents pass (h.contents pass hc)

theorem keeps_mapContents {f : Content → Content}
    (h : ∀ pass, ∀ content ∈ kind.contents, TextIsDone pass content →
      TextIsDone pass (f content)) : kind.Keeps (kind.mapContents f) where
  children := children_mapContents f kind
  target t ht := by rw [target?_mapContents, ht]
  aimed ha := ⟨isAimed_mapContents.2 ha, fun hnone => by rw [target?_mapContents, hnone]⟩
  contents pass hc := by
    intro content' hmem
    obtain ⟨content, hold, rfl⟩ := mem_contents_mapContents.1 hmem
    exact h pass content hold (hc content hold)

theorem Advances.keeps (h : kind.Advances kind') : kind.Keeps kind' := by
  cases h with
  | contents hf =>
    refine keeps_mapContents fun pass content hmem hdone => ?_
    rw [(hf content hmem).eq_of_isHandled hdone.isHandled]
    exact hdone
  | target target hnone =>
    exact {
      children := rfl
      target := fun t ht => by rw [DefinitionKind.target?, hnone] at ht; cases ht
      aimed := fun ha => by have := ha _ rfl; rw [hnone] at this; cases this
      contents := fun _ hc => hc }

theorem Converts.keeps {fonts : FontRegistry} {effective : Option Tags}
    (h : kind.Converts fonts effective kind') : kind.Keeps kind' := by
  cases h with
  | same => exact .refl kind
  | fonts htags =>
    refine keeps_mapContents fun pass content hmem hdone => ?_
    cases pass with
    | commands => exact Content.isHandled_resolveFonts.2 hdone
    | fonts =>
      rw [Content.resolveFonts_of_isConverted hdone]
      exact hdone

end DefinitionKind

/-! ## What is at rest -/

namespace Context

/-- The definition and the definitions that the pass goes on to from it are done, in chains of
    at most `n`. -/
def RestsWithin (pass : Pass) (c : Context) : Nat → DefinitionId → Prop
  | 0, _ => False
  | n + 1, id => ∃ d, c.definition? id = some d ∧ d.kind.IsDone pass ∧
      ∀ y ∈ d.kind.parts, c.RestsWithin pass n y

/-- The depth limit lets passes nest `n` levels deeper. -/
def Admits (c : Context) (n : Nat) : Prop :=
  ∀ limit, c.settings.depthLimit = some limit → c.depth + n ≤ limit

/-- The definition is at rest, and the depth limit lets a pass go through all of it. -/
def Rests (pass : Pass) (c : Context) (id : DefinitionId) : Prop :=
  ∃ n, c.RestsWithin pass n id ∧ c.Admits n

/-- What every call leaves of what is done. -/
structure Keeps (c c' : Context) : Prop where
  settings : c'.settings = c.settings
  depth : c'.depth = c.depth
  definition : ∀ {x d}, c.definition? x = some d →
    ∃ d', c'.definition? x = some d' ∧ d.kind.Keeps d'.kind

theorem composes_keeps : Engine.Composes Keeps where
  refl c := ⟨rfl, rfl, fun hd => ⟨_, hd, .refl _⟩⟩
  trans h h' := by
    refine ⟨h'.settings.trans h.settings, h'.depth.trans h.depth, fun hd => ?_⟩
    obtain ⟨d₁, hd₁, hk₁⟩ := h.definition hd
    obtain ⟨d₂, hd₂, hk₂⟩ := h'.definition hd₁
    exact ⟨d₂, hd₂, hk₁.trans hk₂⟩

theorem Extends.keeps (h : Extends c c') : Keeps c c' := by
  refine ⟨h.settings, h.depth, fun hd => ?_⟩
  obtain ⟨_, _, hd', -, hk⟩ := h.old hd
  exact ⟨_, hd', hk.keeps⟩

theorem Converts.keeps (h : Converts c c') : Keeps c c' := by
  refine ⟨settings_of_unresolved_eq h.written, h.depth, fun hd => ?_⟩
  obtain ⟨_, hd', hk⟩ := h.definition hd
  exact ⟨_, hd', hk.keeps⟩

theorem RestsWithin.mono {n m : Nat} (hnm : n ≤ m) (h : c.RestsWithin pass n id) :
    c.RestsWithin pass m id := by
  induction n generalizing m id with
  | zero => exact h.elim
  | succ n ih =>
    obtain ⟨m, rfl⟩ : ∃ m', m = m' + 1 := ⟨m - 1, by omega⟩
    obtain ⟨d, hd, hdone, hparts⟩ := h
    exact ⟨d, hd, hdone, fun y hy => ih (by omega) (hparts y hy)⟩

theorem RestsWithin.keeps {n : Nat} (hk : Keeps c c') (h : c.RestsWithin pass n id) :
    c'.RestsWithin pass n id := by
  induction n generalizing id with
  | zero => exact h
  | succ n ih =>
    obtain ⟨d, hd, hdone, hparts⟩ := h
    obtain ⟨d', hd', hkind⟩ := hk.definition hd
    obtain ⟨hdone', hsame⟩ := hkind.isDone hdone
    exact ⟨d', hd', hdone', fun y hy => ih (hparts y (hsame ▸ hy))⟩

theorem RestsWithin.atDepth {n : Nat} (h : c.RestsWithin pass n id) (depth : Nat) :
    (c.atDepth depth).RestsWithin pass n id := by
  induction n generalizing id with
  | zero => exact h
  | succ n ih =>
    obtain ⟨d, hd, hdone, hparts⟩ := h
    exact ⟨d, hd, hdone, fun y hy => ih (hparts y hy)⟩

theorem Admits.keeps {n : Nat} (hk : Keeps c c') (h : c.Admits n) : c'.Admits n := by
  intro limit hlimit
  rw [hk.settings] at hlimit
  rw [hk.depth]
  exact h limit hlimit

theorem Rests.keeps (hk : Keeps c c') (h : c.Rests pass id) : c'.Rests pass id := by
  obtain ⟨n, hn, hadmits⟩ := h
  exact ⟨n, hn.keeps hk, hadmits.keeps hk⟩

/-- Several definitions are at rest within one number of levels. -/
theorem exists_restsWithin {ids : List DefinitionId} (h : ∀ y ∈ ids, c.Rests pass y) (k : Nat)
    (hk : c.Admits k) : ∃ n, c.Admits n ∧ ∀ y ∈ ids, c.RestsWithin pass n y := by
  induction ids with
  | nil => exact ⟨k, hk, by simp⟩
  | cons y ids ih =>
    obtain ⟨n, hn, hrest⟩ := ih fun z hz => h z (by simp [hz])
    obtain ⟨m, hm, hadmits⟩ := h y (by simp)
    refine ⟨max n m, fun limit hlimit => ?_, fun z hz => ?_⟩
    · have := hn limit hlimit
      have := hadmits limit hlimit
      omega
    · rcases List.mem_cons.1 hz with rfl | hz
      · exact hm.mono (Nat.le_max_right n m)
      · exact (hrest z hz).mono (Nat.le_max_left n m)

end Context

/-! ## What a pass leaves -/

/-- A definition is done, and what the pass goes on to from it is at rest. -/
def Context.RestsBelow (pass : Pass) (c : Context) (id : DefinitionId) : Prop :=
  ∃ d, c.definition? id = some d ∧ d.kind.IsDone pass ∧ ∀ y ∈ d.kind.parts, c.Rests pass y

/-- What is no part reference rests once its text is done and its parts rest. -/
theorem restsBelow_of_children {d d₁ : Definition} (hd : c.definition? id = some d)
    (hkind : ∀ reference, d.kind ≠ .partReference reference) (h₁ : Keeps c c₁)
    (hd₁ : c₁.definition? id = some d₁)
    (hdone : ∀ content ∈ d₁.kind.contents, DefinitionKind.TextIsDone pass content)
    (h₂ : Keeps c₁ c') (hchildren : ∀ y ∈ d.kind.children, c'.Rests pass y) :
    c'.RestsBelow pass id := by
  obtain ⟨haimed, hnone⟩ := DefinitionKind.isAimed_of_not_reference hkind
  obtain ⟨d₁', hd₁', hk₁⟩ := h₁.definition hd
  cases hd₁.symm.trans hd₁'
  obtain ⟨d', hd', hk₂⟩ := h₂.definition hd₁
  obtain ⟨haimed', hnone'⟩ := (hk₁.trans hk₂).aimed haimed
  refine ⟨d', hd', ⟨hk₂.contents pass hdone, haimed'⟩, fun y hy => hchildren y ?_⟩
  rw [DefinitionKind.parts, hnone' hnone, (hk₁.trans hk₂).children] at hy
  simpa using hy

/-- A part reference rests once its target does. -/
theorem restsBelow_of_target {d₁ : Definition} {reference : PartReference} {t : DefinitionId}
    (hd₁ : c₁.definition? id = some d₁) (hr : d₁.kind = .partReference reference)
    (ht : reference.target = some t) (h : Keeps c₁ c') (hrest : c'.Rests pass t) :
    c'.RestsBelow pass id := by
  have hdone : d₁.kind.IsDone pass := by
    rw [hr]
    exact ⟨by simp [DefinitionKind.contents], by rintro _ ⟨⟩; rw [ht]; rfl⟩
  obtain ⟨d', hd', hk⟩ := h.definition hd₁
  obtain ⟨hdone', hparts⟩ := hk.isDone hdone
  refine ⟨d', hd', hdone', fun y hy => ?_⟩
  rw [hparts, hr, DefinitionKind.parts, DefinitionKind.target?, ht] at hy
  obtain rfl : y = t := by simpa [DefinitionKind.children] using hy
  exact hrest

/-- A pass that ends with a value was not refused, and what it leaves one level deeper at rest is
    at rest. -/
theorem rests_of_nested {frame : Frame} {x : Engine Unit}
    (hx : ∀ {c₁}, x.Gives (c.atDepth (c.depth + 1)) (.ok ()) c₁ →
      Keeps (c.atDepth (c.depth + 1)) c₁ ∧ c₁.RestsBelow pass id)
    (h : (Engine.nested frame x).Gives c (.ok ()) c') : c'.Rests pass id := by
  rw [Engine.Gives] at h
  rcases hf : c.refusal? with _ | limit
  · simp only [Engine.answer?_nested_of_open hf, Option.map_eq_some_iff, Prod.mk.injEq,
      Prod.exists] at h
    obtain ⟨r₁, c₁, h₁, hr, rfl⟩ := h
    rw [Engine.mapError_eq_ok.1 hr] at h₁
    obtain ⟨hkeeps, d, hd, hdone, hparts⟩ := hx h₁
    have hopen : c₁.Admits 0 := by
      intro limit hlimit
      rw [hkeeps.settings] at hlimit
      have hlt := refusal?_eq_none.1 hf limit hlimit
      have hdepth : c₁.depth = c.depth + 1 := hkeeps.depth
      omega
    obtain ⟨n, hn, hrest⟩ := exists_restsWithin hparts 0 hopen
    refine ⟨n + 1, ⟨d, hd, hdone, fun y hy => (hrest y hy).atDepth _⟩, fun limit hlimit => ?_⟩
    have hle := hn limit hlimit
    have hdepth : c₁.depth = c.depth + 1 := hkeeps.depth
    have hdepth' : (c₁.atDepth (c₁.depth - 1)).depth = c₁.depth - 1 := rfl
    omega
  · rw [Engine.answer?_nested_of_refusal hf] at h
    cases h

/-! ### The command pass -/

theorem isHandledAt_of_resolveContent {handle : DefinitionId → Engine Unit} {d : Definition}
    {content : Content} (hh : ∀ id, (handle id).Moves Extends) (hd : c.definition? id = some d)
    (hmem : content ∈ d.kind.contents)
    (h : (Engine.resolveContent handle id content).Gives c (.ok ()) c₁) : c₁.IsHandledAt id := by
  have hcontents := DefinitionKind.contents_eq_of_mem hmem
  have hextends := extends_resolveContent hh hd hmem h
  obtain ⟨_, _, hd₁, -, -⟩ := hextends.old hd
  rcases Engine.gives_resolveContent h with
    ⟨hhandled, -, rfl⟩ | ⟨-, r₁, c₂, -, ⟨_, -, hr, -⟩ | ⟨l, -, -, rfl⟩⟩
  · refine ⟨d, hd, ?_⟩
    rw [hcontents]
    intro content' hmem'
    rw [List.mem_singleton.1 hmem']
    exact hhandled
  · cases hr
  · refine ⟨_, hd₁, fun content' hmem' => ?_⟩
    rw [modifyContent_eq] at hd₁
    obtain ⟨d₂, -, he⟩ := definition?_modifyKind hd₁
    rw [he, if_pos rfl] at hmem'
    obtain ⟨content₂, -, rfl⟩ := DefinitionKind.mem_contents_mapContents.1 hmem'
    exact content₂.isHandled_resolveCommands l

/-- What a pass that has nothing but parts to go on to brings about. -/
theorem secures_runAll_rests {handle : DefinitionId → Engine Unit}
    (hh : ∀ y, (handle y).Secures (fun _ => True) Keeps fun _ c => c.Rests pass y)
    {ids : List DefinitionId} (h : (Engine.runAll (ids.map handle)).Gives c (.ok ()) c') :
    Keeps c c' ∧ ∀ y ∈ ids, c'.Rests pass y := by
  obtain ⟨-, hkeeps, hrest⟩ := Engine.Secures.runAll composes_keeps
    (Q := fun y c => c.Rests pass y) (fun _ _ _ hk hr => hr.keeps hk) (fun y _ => hh y) _ _ _
    trivial h
  exact ⟨hkeeps, hrest () rfl⟩

theorem restsBelow_of_commandPass {n : Nat}
    (hh : ∀ y, (Engine.handleCommands n y).Secures (fun _ => True) Keeps
      fun _ c => c.Rests .commands y)
    (h : (Engine.commandPass (Engine.handleCommands n) id).Gives c (.ok ()) c') :
    c'.RestsBelow .commands id := by
  obtain ⟨d, hd, hpass⟩ := Engine.gives_commandPass h
  generalize hr : (Except.ok () : Except Error Unit) = r at hpass
  cases hpass with
  | @parts r₁ r₂ c₁ _ hkind htext hparts =>
    obtain ⟨rfl, rfl⟩ := Engine.firstError_eq_ok.1 hr.symm
    obtain ⟨hkeeps, hchildren⟩ := secures_runAll_rests hh hparts
    rcases htext with ⟨hnil, -, rfl⟩ | ⟨content, hmem, hcontent⟩
    · refine restsBelow_of_children hd hkind (composes_keeps.refl _) hd ?_ hkeeps hchildren
      rw [hnil]
      simp
    · have hextends := extends_resolveContent (extends_handleCommands n) hd hmem hcontent
      obtain ⟨d₁, hd₁, hdone⟩ :=
        isHandledAt_of_resolveContent (extends_handleCommands n) hd hmem hcontent
      exact restsBelow_of_children hd hkind hextends.keeps hd₁ hdone hkeeps hchildren
  | target hk ht hgives =>
    obtain ⟨-, hkeeps, hrest⟩ := hh _ _ _ _ trivial hgives
    exact restsBelow_of_target hd hk ht hkeeps (hrest () hr.symm)
  | @found reference target _ _ hk hnone _ hgives =>
    obtain ⟨-, hkeeps, hrest⟩ := hh _ _ _ _ trivial hgives
    obtain ⟨references, hset⟩ := definition?_setTarget hd hk target
    exact restsBelow_of_target hset rfl rfl hkeeps (hrest () hr.symm)
  | missing => cases hr

/-! ### The font pass -/

/-- A text that is converted with a value is converted then. -/
theorem isConvertedAt_of_convert {targets : List DefinitionId → Engine Unit} {d : Definition}
    {content : Content} (hmoves : ∀ ids, (targets ids).Moves Converts)
    (hd : c.definition? id = some d) (hmem : content ∈ d.kind.contents)
    (h : (Engine.convert targets id content).Gives c (.ok ()) c₁) :
    Converts c c₁ ∧ c₁.IsConvertedAt id := by
  have hcontents := DefinitionKind.contents_eq_of_mem hmem
  unfold Engine.convert at h
  split at h
  · simp at h
  · rename_i l hstage
    obtain ⟨-, rfl⟩ := Engine.gives_pure.1 h
    refine ⟨.refl _, d, hd, ?_⟩
    rw [hcontents]
    intro content' hmem'
    rw [List.mem_singleton.1 hmem']
    exact ⟨l, hstage⟩
  · rename_i l hstage
    obtain ⟨_, c₂, htargets, hconvert⟩ := Engine.gives_bind_ok.1 h
    have h₂ := hmoves _ _ _ _ htargets
    refine ⟨h₂.trans (converts_convertContent hconvert), ?_⟩
    have hhandled : ∀ content ∈ d.kind.contents, content.IsHandled := by
      rw [hcontents]
      intro content' hmem'
      simp [List.mem_singleton.1 hmem', Content.IsHandled, hstage]
    obtain ⟨d₂, hd₂, hkeeps⟩ := h₂.keeps.definition hd
    exact isConvertedAt_convertContent hd₂ (hkeeps.contents .commands hhandled) hconvert

theorem restsBelow_of_fontPass {n : Nat}
    (hh : ∀ y, (Engine.handleFonts n y).Secures (fun _ => True) Keeps
      fun _ c => c.Rests .fonts y)
    (h : (Engine.fontPass (Engine.handleFonts n) id).Gives c (.ok ()) c') :
    c'.RestsBelow .fonts id := by
  obtain ⟨d, hd, hpass⟩ := Engine.gives_fontPass h
  generalize hr : (Except.ok () : Except Error Unit) = r at hpass
  cases hpass with
  | @parts targets r₁ r₂ c₁ _ hkind htargets htext hparts =>
    obtain ⟨rfl, rfl⟩ := Engine.firstError_eq_ok.1 hr.symm
    obtain ⟨hkeeps, hchildren⟩ := secures_runAll_rests hh hparts
    rcases htext with ⟨hnil, -, rfl⟩ | ⟨content, hmem, hcontent⟩
    · refine restsBelow_of_children hd hkind (composes_keeps.refl _) hd ?_ hkeeps hchildren
      rw [hnil]
      simp
    · have hmoves : ∀ ids, (targets ids).Moves Converts := fun ids =>
        Engine.each_moves composes_converts (converts_handleFonts n) (htargets ids)
      obtain ⟨hconverts, d₁, hd₁, hdone⟩ :=
        isConvertedAt_of_convert hmoves hd hmem hcontent
      exact restsBelow_of_children hd hkind hconverts.keeps hd₁ hdone hkeeps hchildren
  | target hk ht hgives =>
    obtain ⟨-, hkeeps, hrest⟩ := hh _ _ _ _ trivial hgives
    exact restsBelow_of_target hd hk ht hkeeps (hrest () hr.symm)
  | missing => cases hr

/-! ### Both passes -/

theorem Pass.keeps_node (pass : Pass) (n : Nat) (id : DefinitionId) :
    (pass.node (pass.handle n) id).Moves Keeps := by
  intro c r c' h
  cases pass with
  | commands => exact (extends_commandPass (extends_handleCommands n) id _ _ _ h).keeps
  | fonts => exact (converts_fontPass (converts_handleFonts n) id _ _ _ h).keeps

theorem Pass.keeps_handle (pass : Pass) (n : Nat) (id : DefinitionId) :
    (pass.handle n id).Moves Keeps := by
  intro c r c' h
  cases pass with
  | commands => exact (extends_handleCommands n id _ _ _ h).keeps
  | fonts => exact (converts_handleFonts n id _ _ _ h).keeps

/-- **What a pass leaves that ends with a value is at rest.** -/
theorem Pass.secures_rests (pass : Pass) (n : Nat) (id : DefinitionId) :
    (pass.handle n id).Secures (fun _ => True) Keeps fun _ c => c.Rests pass id := by
  induction n generalizing id with
  | zero =>
    intro c r c' _ h
    rw [handle_zero] at h
    exact (Engine.gives_endless.1 h).elim
  | succ n ih =>
    intro c r c' _ h
    refine ⟨trivial, pass.keeps_handle _ id _ _ _ h, ?_⟩
    rintro _ rfl
    rw [handle_succ, Engine.gives_definition_bind] at h
    obtain ⟨d, -, h⟩ := h
    refine rests_of_nested (fun hx => ⟨pass.keeps_node n id _ _ _ hx, ?_⟩) h
    cases pass with
    | commands => exact restsBelow_of_commandPass ih hx
    | fonts => exact restsBelow_of_fontPass ih hx

/-- Every call keeps what is done. -/
theorem Call.Ends.keeps {call : Call} {r : Except Error Unit} (h : call.Ends c r c') :
    Keeps c c' :=
  h.moves composes_keeps (Pass.keeps_handle .commands) (Pass.keeps_handle .fonts)

/-! ## The pass of what is at rest -/

theorem gives_runAll_self {xs : List (Engine Unit)} (h : ∀ x ∈ xs, x.Gives c (.ok ()) c) :
    (Engine.runAll xs).Gives c (.ok ()) c := by
  induction xs with
  | nil => exact Engine.gives_pure.2 ⟨rfl, rfl⟩
  | cons x xs ih =>
    exact Engine.gives_runAll_cons.2
      ⟨.ok (), c, .ok (), h x (by simp), ih fun y hy => h y (by simp [hy]), rfl⟩

/-- A section changes nothing if neither its title nor its children do. -/
theorem gives_section_self {handle : DefinitionId → Engine Unit} {text : Content → Engine Unit}
    {body : Section} (htitle : ∀ title ∈ body.title.toList, text title = pure ())
    (hchildren : ∀ y ∈ body.children, (handle y).Gives c (.ok ()) c) :
    (Engine.runAll (body.title.toList.map text ++ body.children.map handle)).Gives c (.ok ())
      c := by
  refine gives_runAll_self fun x hx => ?_
  rcases List.mem_append.1 hx with hx | hx
  · obtain ⟨title, hmem, rfl⟩ := List.mem_map.1 hx
    rw [htitle title hmem]
    exact Engine.gives_pure.2 ⟨rfl, rfl⟩
  · obtain ⟨y, hy, rfl⟩ := List.mem_map.1 hx
    exact hchildren y hy

/-- The pass of a node that is done changes nothing if the passes that it goes on to do not. -/
theorem Pass.node_of_isDone {handle : DefinitionId → Engine Unit} {d : Definition}
    (hd : c.definition? id = some d) (hdone : d.kind.IsDone pass)
    (hparts : ∀ y ∈ d.kind.parts, (handle y).Gives c (.ok ()) c) :
    (pass.node handle id).Gives c (.ok ()) c := by
  have hstays : (pure () : Engine Unit).Gives c (.ok ()) c := Engine.gives_pure.2 ⟨rfl, rfl⟩
  have hchildren : ∀ body, d.kind = .section body →
      ∀ y ∈ body.children, (handle y).Gives c (.ok ()) c := by
    intro body hk y hy
    exact hparts y (by simp [hk, DefinitionKind.parts, DefinitionKind.children, hy])
  have htarget : ∀ reference, d.kind = .partReference reference →
      ∃ t, reference.target = some t ∧ (handle t).Gives c (.ok ()) c := by
    intro reference hk
    obtain ⟨t, ht⟩ := Option.isSome_iff_exists.1 (hdone.aimed reference hk)
    exact ⟨t, ht, hparts t (by simp [hk, DefinitionKind.parts, DefinitionKind.target?, ht])⟩
  obtain ⟨hcontents, -⟩ := hdone
  cases pass with
  | commands =>
    refine Engine.gives_definition_bind.2 ⟨d, hd, ?_⟩
    split
    case h_1 content hk | h_2 content hk =>
      rw [Engine.resolveContent_of_isHandled _ _
        (hcontents content (by simp [hk, DefinitionKind.contents]))]
      exact hstays
    case h_3 body hk =>
      exact gives_section_self (fun title htitle => Engine.resolveContent_of_isHandled _ _
        (hcontents title (by rw [hk]; exact htitle))) (hchildren body hk)
    case h_4 reference hk =>
      obtain ⟨t, ht, hgives⟩ := htarget reference hk
      rw [ht]
      exact hgives
    case h_5 | h_6 | h_7 => exact hstays
  | fonts =>
    refine Engine.gives_definition_bind.2 ⟨d, hd, ?_⟩
    split
    case h_1 content hk | h_2 content hk =>
      rw [Engine.convert_of_isConverted _ _
        (hcontents content (by simp [hk, DefinitionKind.contents]))]
      exact hstays
    case h_3 body hk =>
      exact gives_section_self (fun title htitle => Engine.convert_of_isConverted _ _
        (hcontents title (by rw [hk]; exact htitle))) (hchildren body hk)
    case h_4 reference hk =>
      obtain ⟨t, ht, hgives⟩ := htarget reference hk
      rw [ht]
      exact hgives
    case h_5 | h_6 | h_7 => exact hstays

/-- **The pass of what is at rest changes nothing.** -/
theorem Pass.handle_of_restsWithin {n : Nat} (h : c.RestsWithin pass n id) (ha : c.Admits n) :
    (pass.handle n id).Gives c (.ok ()) c := by
  induction n generalizing id c with
  | zero => exact h.elim
  | succ n ih =>
    obtain ⟨d, hd, hdone, hparts⟩ := h
    rw [handle_succ, Engine.gives_definition_bind]
    refine ⟨d, hd, ?_⟩
    have hopen : c.refusal? = none := by
      refine refusal?_eq_none.2 fun limit hlimit => ?_
      have hle := ha limit hlimit
      omega
    have hinner : (c.atDepth (c.depth + 1)).Admits n := by
      intro limit hlimit
      have hle := ha limit hlimit
      have hdepth : (c.atDepth (c.depth + 1)).depth = c.depth + 1 := rfl
      omega
    have hnode : (pass.node (pass.handle n) id).Gives (c.atDepth (c.depth + 1)) (.ok ())
        (c.atDepth (c.depth + 1)) :=
      Pass.node_of_isDone hd hdone fun y hy => ih ((hparts y hy).atDepth _) hinner
    rw [Engine.Gives, Engine.answer?_nested_of_open hopen, hnode]
    rfl

/-- **A pass that has ended with a value changes nothing when it is repeated.**  If the command
    pass or the font pass of a definition has ended with a value, then, after any calls since,
    however they ended, the same pass ends with a value again and leaves the whole context as it
    found it; nor can it end in any other way. -/
theorem unchanged_of_repeated {events : List Event} (h : (pass.call id).Ends c (.ok ()) c₁)
    (hs : Session c₁ events c₂) (hcalls : ∀ e ∈ events, e.IsCall) :
    (pass.call id).Ends c₂ (.ok ()) c₂ ∧
      ∀ r c₃, (pass.call id).Ends c₂ r c₃ → r = .ok () ∧ c₃ = c₂ := by
  obtain ⟨n, h⟩ := h
  rw [Pass.pass_call] at h
  obtain ⟨-, -, hrests⟩ := pass.secures_rests n id _ _ _ trivial h
  have hkeeps : Keeps c₁ c₂ := by
    refine hs.invariant (P := Keeps c₁) hcalls (composes_keeps.refl c₁) ?_
    exact fun _ hk hends => composes_keeps.trans hk hends.keeps
  obtain ⟨m, hm, hadmits⟩ := (hrests () rfl).keeps hkeeps
  have hagain : (pass.call id).Ends c₂ (.ok ()) c₂ :=
    ⟨m, by rw [Pass.pass_call]; exact Pass.handle_of_restsWithin hm hadmits⟩
  refine ⟨hagain, fun r c₃ hends => ?_⟩
  obtain ⟨hr, hc⟩ := hends.unique hagain
  exact ⟨hr, hc⟩

/-- Under a depth limit, the commands of a section with an inserted text, a footnote and a part
    reference are handled, its fonts are converted, and its document is resolved: handling its
    commands again changes nothing, and the footnote is numbered once. -/
theorem unchanged_of_repeated_section :
    ∃ c c₁ c₂ c₃ : Context, (Call.commands ⟨0⟩).Ends c (.ok ()) c₁ ∧
      (Call.fonts ⟨0⟩).Ends c₁ (.ok ()) c₂ ∧ (Call.document ⟨0⟩).Ends c₂ (.ok ()) c₃ ∧
      c₁.text? ⟨2⟩ = some "a[1]" ∧ c₃.text? ⟨2⟩ = some "ⲁ[1]" ∧ c₃.numbers (some ⟨0⟩) = [1] ∧
      (Call.commands ⟨0⟩).Ends c₃ (.ok ()) c₃ := by
  let c := [Edit.addDocument "d" "D",
    .addVersion ⟨0⟩ (.ofKnown .coptic) (some "CS Avva Shenouda"),
    .addStanza ⟨0⟩ (some "a") "a", .addStanza ⟨0⟩ none "\\def\x7ba\x7d\\footnote\x7bx\x7d",
    .addPartReference ⟨0⟩ none "a"].foldl Edit.apply (.new { depthLimit := some 3 })
  let c₁ := (Call.commands ⟨0⟩).run 4 c
  let c₂ := (Call.fonts ⟨0⟩).run 4 c₁
  let c₃ := (Call.document ⟨0⟩).run 4 c₂
  have h₁ : (Pass.commands.call ⟨0⟩).Ends c (.ok ()) c₁ := Call.ends_run (by decide +kernel)
  have h₂ : (Call.fonts ⟨0⟩).Ends c₁ (.ok ()) c₂ := Call.ends_run (by decide +kernel)
  have h₃ : (Call.document ⟨0⟩).Ends c₂ (.ok ()) c₃ := Call.ends_run (by decide +kernel)
  refine ⟨c, c₁, c₂, c₃, h₁, h₂, h₃, by decide +kernel, by decide +kernel, by decide +kernel, ?_⟩
  have hs : Session c₁ [.call (.fonts ⟨0⟩) (.ok ()), .call (.document ⟨0⟩) (.ok ())] c₃ :=
    .call (.call .start h₂) h₃
  exact (unchanged_of_repeated h₁ hs (by simp [Event.IsCall])).1

end Rubric
