/-
  Rubric — font passes come to an end under a depth limit.

  A font pass only stops short of an answer at a definition that is missing, or
  at a text of one without tags in effect; otherwise it would have to nest
  without end, and the limit keeps it from that.

  * `Engine.Answers`: a computation ends;
  * `Context.Grounded G c`: no definition with `G` stops a font pass short, and
    font passes lead from them to definitions with `G` only;
  * **`answers_handleFonts`**: under a limit the font pass of such a definition ends;
  * **`grounded_of_handleFonts`**: what a font pass leads to that has ended with a
    value is grounded.
-/
import Rubric.Proofs.Atomic

namespace Rubric

open Context

variable {c c' c₁ c₂ : Context} {id x y : DefinitionId}

/-! ## Computations that end -/

namespace Engine

variable {α : Type} {I : Context → Prop}

/-- From the context the computation ends. -/
def EndsFrom (c : Context) (x : Engine α) : Prop :=
  ∃ r c', x.Gives c r c'

theorem EndsFrom.pure (a : α) : (pure a : Engine α).EndsFrom c :=
  ⟨_, _, gives_pure.2 ⟨rfl, rfl⟩⟩

theorem EndsFrom.fail (cause : Cause) : (fail cause : Engine α).EndsFrom c :=
  ⟨_, _, gives_fail.2 ⟨rfl, rfl⟩⟩

theorem EndsFrom.get_bind {f : Context → Engine α} (h : (f c).EndsFrom c) :
    ((get : Engine Context) >>= f).EndsFrom c := by
  obtain ⟨r, c', h⟩ := h
  exact ⟨r, c', gives_get_bind.2 h⟩

theorem EndsFrom.modify_bind {g : Context → Context} {f : PUnit → Engine α}
    (h : (f ⟨⟩).EndsFrom (g c)) : ((modify g : Engine PUnit) >>= f).EndsFrom c := by
  obtain ⟨r, c', h⟩ := h
  exact ⟨r, c', gives_modify_bind.2 h⟩

theorem EndsFrom.ofOption_bind {β : Type} {o : Option α} {f : α → Engine β} (ho : o.isSome)
    (h : ∀ a, o = some a → (f a).EndsFrom c) : (ofOption o >>= f).EndsFrom c := by
  obtain ⟨a, ha⟩ := Option.isSome_iff_exists.1 ho
  obtain ⟨r, c', h⟩ := h a ha
  exact ⟨r, c', gives_ofOption_bind.2 ⟨a, ha, h⟩⟩

theorem EndsFrom.ofExcept_bind {β : Type} {x : Except Cause α} {f : α → Engine β}
    (h : ∀ a, x = .ok a → (f a).EndsFrom c) : (ofExcept x >>= f).EndsFrom c := by
  rcases x with cause | a
  · exact ⟨_, _, gives_bind.2 (Or.inr ⟨_, gives_fail.2 ⟨rfl, rfl⟩, rfl⟩)⟩
  · obtain ⟨r, c', h⟩ := h a rfl
    exact ⟨r, c', gives_bind.2 (Or.inl ⟨a, c, gives_pure.2 ⟨rfl, rfl⟩, h⟩)⟩

theorem EndsFrom.definition_bind {d : Definition} {f : Definition → Engine α}
    (hd : c.definition? id = some d) (h : (f d).EndsFrom c) :
    (definition id >>= f).EndsFrom c := by
  obtain ⟨r, c', h⟩ := h
  exact ⟨r, c', gives_definition_bind.2 ⟨d, hd, h⟩⟩

theorem EndsFrom.bind {β : Type} {x : Engine α} {f : α → Engine β} {r : Except Error α}
    (h : x.Gives c r c₁) (hf : ∀ a, r = .ok a → (f a).EndsFrom c₁) : (x >>= f).EndsFrom c := by
  rcases r with e | a
  · exact ⟨.error e, c₁, gives_bind.2 (Or.inr ⟨e, h, rfl⟩)⟩
  · obtain ⟨r, c₂, h₂⟩ := hf a rfl
    exact ⟨r, c₂, gives_bind.2 (Or.inl ⟨a, c₁, h, h₂⟩)⟩

/-- A sequence ends if its first part does, and its second part wherever the first one leads to. -/
theorem EndsFrom.then {β : Type} {x : Engine α} {f : α → Engine β} (h : x.EndsFrom c)
    (hf : ∀ a c₁, x.Gives c (.ok a) c₁ → (f a).EndsFrom c₁) : (x >>= f).EndsFrom c := by
  obtain ⟨r, c₁, h⟩ := h
  exact .bind h fun a ha => hf a c₁ (ha ▸ h)

theorem EndsFrom.within {x : Engine α} (h : x.EndsFrom c) (frame : Frame) :
    (within frame x).EndsFrom c := by
  obtain ⟨r, c', h⟩ := h
  exact ⟨_, c', gives_within.2 ⟨r, h, rfl⟩⟩

theorem EndsFrom.runAll_cons {x : Engine Unit} {xs : List (Engine Unit)} {r : Except Error Unit}
    (h : x.Gives c r c₁) (hxs : (runAll xs).EndsFrom c₁) : (runAll (x :: xs)).EndsFrom c := by
  obtain ⟨r₂, c₂, h₂⟩ := hxs
  exact ⟨_, c₂, gives_runAll_cons.2 ⟨r, c₁, r₂, h, h₂, rfl⟩⟩

theorem EndsFrom.nested {frame : Frame} {x : Engine Unit}
    (h : c.refusal? = none → x.EndsFrom (c.atDepth (c.depth + 1))) :
    (nested frame x).EndsFrom c := by
  rcases hc : c.refusal? with _ | limit
  · obtain ⟨r, c', hx⟩ := h hc
    exact ⟨_, _, (answer?_nested_of_open hc frame x).trans (congrArg (Option.map _) hx)⟩
  · exact ⟨_, _, answer?_nested_of_refusal hc frame x⟩

/-- From a context with `I` the computation ends, in a context with `I`. -/
def Answers (I : Context → Prop) (x : Engine α) : Prop :=
  ∀ c, I c → ∃ r c', x.Gives c r c' ∧ I c'

theorem Answers.endsFrom {x : Engine α} (h : x.Answers I) (hc : I c) : x.EndsFrom c := by
  obtain ⟨r, c', hx, -⟩ := h c hc
  exact ⟨r, c', hx⟩

theorem Answers.runAll {ι : Type} {f : ι → Engine Unit} {l : List ι}
    (h : ∀ i ∈ l, (f i).Answers I) : (runAll (l.map f)).Answers I := by
  induction l with
  | nil => exact fun c hc => ⟨.ok (), c, gives_pure.2 ⟨rfl, rfl⟩, hc⟩
  | cons i l ih =>
    intro c hc
    obtain ⟨r₁, c₁, h₁, hc₁⟩ := h i (by simp) c hc
    obtain ⟨r₂, c₂, h₂, hc₂⟩ := ih (fun j hj => h j (by simp [hj])) c₁ hc₁
    exact ⟨_, c₂, gives_runAll_cons.2 ⟨r₁, c₁, r₂, h₁, h₂, rfl⟩, hc₂⟩

theorem Answers.forM {ι : Type} {f : ι → Engine PUnit} {l : List ι}
    (h : ∀ i ∈ l, (f i).Answers I) : Answers I (l.forM f) := by
  induction l with
  | nil => exact fun c hc => ⟨.ok ⟨⟩, c, gives_pure.2 ⟨rfl, rfl⟩, hc⟩
  | cons i l ih =>
    intro c hc
    obtain ⟨r₁, c₁, h₁, hc₁⟩ := h i (by simp) c hc
    rcases r₁ with e | a
    · exact ⟨.error e, c₁, gives_bind.2 (Or.inr ⟨e, h₁, rfl⟩), hc₁⟩
    · obtain ⟨r₂, c₂, h₂, hc₂⟩ := ih (fun j hj => h j (by simp [hj])) c₁ hc₁
      exact ⟨r₂, c₂, gives_bind.2 (Or.inl ⟨a, c₁, h₁, h₂⟩), hc₂⟩

end Engine

/-! ## Grounded definitions -/

namespace Context

/-- Definitions with `G` are there, their texts that are to be converted have tags in effect, and
    the font pass goes on from them to definitions with `G`. -/
def Grounded (G : DefinitionId → Prop) (c : Context) : Prop :=
  ∀ x, G x → ∃ d, c.definition? x = some d ∧ (∀ y, c.Awaits x y → G y) ∧
    ∀ content ∈ d.kind.contents, ∀ l, content.stage = .commandsResolved l →
      (c.effectiveTags? x).isSome

variable {G : DefinitionId → Prop}

/-- A conversion leads to nothing new. -/
theorem Converts.awaits (h : Converts c c') (hxy : c'.Awaits x y) : c.Awaits x y := by
  rcases hxy with ⟨d', content, l, hd', hmem, hstage, hy⟩ | ⟨d', hd', hy⟩
  · obtain ⟨d, kind, hd, rfl, hk⟩ := h.of_definition? hd'
    cases hk with
    | same => exact Or.inl ⟨d, content, l, hd, hmem, hstage, hy⟩
    | fonts =>
      obtain ⟨⟨source, _ | _ | _⟩, -, rfl⟩ := DefinitionKind.mem_contents_mapContents.1 hmem <;>
        cases hstage
  · obtain ⟨d, kind, hd, rfl, hk⟩ := h.of_definition? hd'
    exact Or.inr ⟨d, hd, hk.parts_eq ▸ hy⟩

theorem Grounded.converts (h : c.Grounded G) (hc : Converts c c') : c'.Grounded G := by
  intro x hx
  obtain ⟨d, hd, hlinks, htags⟩ := h x hx
  obtain ⟨kind, hd', hk⟩ := hc.definition hd
  refine ⟨_, hd', fun y hy => hlinks y (hc.awaits hy), fun content hmem l hstage => ?_⟩
  rw [hc.effectiveTags?]
  cases hk with
  | same => exact htags content hmem l hstage
  | fonts htags => rw [htags]; rfl

end Context

/-! ## The font pass ends -/

theorem endsFrom_convertContent {d : Definition} {tags : Tags} (l : List Inline)
    (hd : c.definition? id = some d) (htags : c.effectiveTags? id = some tags) :
    (Engine.convertContent id l).EndsFrom c := by
  simp only [Engine.EndsFrom, Engine.convertContent, Engine.gives_get_bind,
    Engine.gives_ofOption_bind, Engine.gives_definition_bind]
  exact ⟨_, _, tags, htags, d, hd, Engine.gives_set.2 ⟨rfl, rfl⟩⟩

section
variable {G : DefinitionId → Prop} {I : Context → Prop} {handle : DefinitionId → Engine Unit}
  (hground : ∀ c, I c → c.Grounded G) (hconverts : ∀ y, (handle y).Moves Converts)
  (hh : ∀ y, G y → (handle y).Answers I)
include hground hconverts hh

theorem endsFrom_convert {targets : List DefinitionId → Engine Unit} {d : Definition}
    {content : Content}
    (ht : ∀ ids, targets ids = ids.forM handle ∨ targets ids = Engine.runAll (ids.map handle))
    (hc : I c) (hid : G id) (hd : c.definition? id = some d) (hmem : content ∈ d.kind.contents) :
    (Engine.convert targets id content).EndsFrom c := by
  obtain ⟨d', hd', hlinks, htags⟩ := hground c hc id hid
  cases hd.symm.trans hd'
  unfold Engine.convert
  split
  · exact ⟨_, _, Engine.gives_fail.2 ⟨rfl, rfl⟩⟩
  · exact ⟨_, _, Engine.gives_pure.2 ⟨rfl, rfl⟩⟩
  · rename_i l hstage
    obtain ⟨tags, htags⟩ := Option.isSome_iff_exists.1 (htags content hmem l hstage)
    have hone : ∀ y ∈ Inline.targets l, (handle y).Answers I := fun y hy =>
      hh y (hlinks y (Or.inl ⟨d, content, l, hd, hmem, hstage, hy⟩))
    have hall : (targets (Inline.targets l)).Answers I := by
      rcases ht (Inline.targets l) with he | he <;> rw [he]
      · exact .forM hone
      · exact .runAll hone
    obtain ⟨r₁, c₁, h₁, -⟩ := hall c hc
    have hmoves := Engine.each_moves composes_converts hconverts (ht (Inline.targets l)) _ _ _ h₁
    obtain ⟨kind, hd₁, -⟩ := hmoves.definition hd
    exact .bind h₁ fun _ _ => endsFrom_convertContent l hd₁ ((hmoves.effectiveTags? id).trans htags)

/-- The font pass of a grounded node ends if the passes of other ones do. -/
theorem endsFrom_fontPass (hkeep : ∀ {c c'}, I c → Converts c c' → I c') (hc : I c) (hid : G id) :
    (Engine.fontPass handle id).EndsFrom c := by
  obtain ⟨d, hd, hlinks, -⟩ := hground c hc id hid
  have hparts : ∀ y ∈ d.kind.parts, G y := fun y hy => hlinks y (Or.inr ⟨d, hd, hy⟩)
  refine .definition_bind hd ?_
  split
  · rename_i content hk
    refine endsFrom_convert hground hconverts hh (fun _ => Or.inl rfl) hc hid hd ?_
    simp [hk, DefinitionKind.contents]
  · rename_i content hk
    refine endsFrom_convert hground hconverts hh (fun _ => Or.inl rfl) hc hid hd ?_
    simp [hk, DefinitionKind.contents]
  · rename_i body hk
    have hchildren : (Engine.runAll (body.children.map handle)).Answers I :=
      .runAll fun y hy => hh y (hparts y (by simp [hk, DefinitionKind.parts,
        DefinitionKind.children, hy]))
    rcases ht : body.title with _ | title
    · exact hchildren.endsFrom hc
    · have hmem : title ∈ d.kind.contents := by simp [hk, DefinitionKind.contents, ht]
      obtain ⟨r₁, c₁, h₁⟩ := endsFrom_convert hground hconverts hh
        (fun ids => Or.inr (rfl : Engine.runAll (ids.map handle) = _)) hc hid hd hmem
      refine .runAll_cons h₁ (hchildren.endsFrom (hkeep hc ?_))
      exact converts_convert (fun ids => Engine.each_moves composes_converts hconverts (Or.inr rfl))
        hd hmem h₁
  · rename_i reference hk
    split
    · rename_i target ht
      exact (hh target (hparts target (by simp [hk, DefinitionKind.parts,
        DefinitionKind.target?, ht]))).endsFrom hc
    · exact ⟨_, _, Engine.gives_fail.2 ⟨rfl, rfl⟩⟩
  all_goals exact ⟨_, _, Engine.gives_pure.2 ⟨rfl, rfl⟩⟩

end

/-! ## Nested font passes end -/

/-- `k` of at most `n` passes are under way, and definitions with `G` are grounded. -/
structure Context.Bounded (n k : Nat) (G : DefinitionId → Prop) (c : Context) : Prop where
  limit : c.settings.depthLimit = some n
  depth : c.depth = k
  grounded : c.Grounded G

section
variable {n k : Nat} {G : DefinitionId → Prop}

theorem Context.Bounded.converts (h : c.Bounded n k G) (hc : Converts c c') :
    c'.Bounded n k G where
  limit := by rw [settings_of_unresolved_eq hc.written, h.limit]
  depth := hc.depth.trans h.depth
  grounded := h.grounded.converts hc

theorem Context.Bounded.enter (h : c.Bounded n k G) :
    (c.atDepth (c.depth + 1)).Bounded n (k + 1) G where
  limit := h.limit
  depth := congrArg Nat.succ h.depth
  grounded x hx := by
    rw [effectiveTags?_atDepth]
    exact h.grounded x hx

/-- The font pass of a node ends if it is refused or those that it goes on to end. -/
theorem answers_handleFonts_succ {m : Nat}
    (hh : k < n → ∀ y, G y → (Engine.handleFonts m y).Answers (Bounded n (k + 1) G)) (hid : G id) :
    (Engine.handleFonts (m + 1) id).Answers (Bounded n k G) := by
  intro c hc
  obtain ⟨d, hd, -⟩ := hc.grounded id hid
  obtain ⟨r, c', h⟩ : (Engine.handleFonts (m + 1) id).EndsFrom c := by
    refine .definition_bind hd (.nested fun hopen => ?_)
    have hlt : k < n := hc.depth ▸ refusal?_eq_none.1 hopen n hc.limit
    exact endsFrom_fontPass (fun _ hc => hc.grounded) (converts_handleFonts m) (hh hlt)
      (fun hc => hc.converts) hc.enter hid
  exact ⟨r, c', h, hc.converts (converts_handleFonts _ _ _ _ _ h)⟩

/-- **Under a depth limit the font pass of a grounded definition ends.** -/
theorem answers_handleFonts (hid : G id) :
    (Engine.handleFonts (n - k + 1) id).Answers (Bounded n k G) := by
  generalize hj : n - k = j
  induction j generalizing k id with
  | zero => exact answers_handleFonts_succ (fun hlt => by omega) hid
  | succ j ih => exact answers_handleFonts_succ (fun _ y hy => ih hy (by omega)) hid

end

/-! ## What a font pass has gone through -/

namespace Context

/-- All that the font pass of the definition leads to in the first context is converted in the
    second one. -/
def Completed (c c' : Context) (y : DefinitionId) : Prop :=
  ∀ z, c.Waits y z → c'.IsConvertedAt z

/-- Texts of the first context are converted in the second one only after all that they wait
    for. -/
structure Completes (c c' : Context) : Prop where
  converts : Converts (c.atDepth c'.depth) c'
  texts : ∀ {x y}, c.TextAwaits x y → c'.IsConvertedAt x → c.Completed c' y

/-- What is converted in the first context is so in the second one. -/
def KeepsConverted (c c' : Context) : Prop :=
  ∀ x, c.IsConvertedAt x → c'.IsConvertedAt x

theorem composes_keepsConverted : Engine.Composes KeepsConverted where
  refl _ _ hx := hx
  trans h h' x hx := h' x (h x hx)

theorem Completed.keeps (hc : KeepsConverted c₁ c₂) (h : c.Completed c₁ y) : c.Completed c₂ y :=
  fun z hz => hc z (h z hz)

/-- A converted text waits for nothing. -/
theorem IsConvertedAt.not_textAwaits (h : c.IsConvertedAt x) : ¬ c.TextAwaits x y := by
  rintro ⟨d', content, l, hd', hmem, hstage, -⟩
  obtain ⟨d, hd, hc⟩ := h
  cases hd.symm.trans hd'
  obtain ⟨inlines, hinlines⟩ := hc content hmem
  cases hstage.symm.trans hinlines

theorem completes_refl (c : Context) : c.Completes c where
  converts := .refl c
  texts htext hx := absurd htext hx.not_textAwaits

theorem Completes.atDepth (h : c.Completes c₁) (depth : Nat) : c.Completes (c₁.atDepth depth) where
  converts := h.converts.atDepth depth
  texts := h.texts

/-- A text that is still to be converted waits for what it always did. -/
theorem Completes.mem_targets {d : Definition} {content : Content} {l : List Inline}
    (h : c.Completes c₁) (hd : c₁.definition? x = some d) (hmem : content ∈ d.kind.contents)
    (hstage : content.stage = .commandsResolved l) (hxy : c.TextAwaits x y) :
    y ∈ Inline.targets l := by
  obtain ⟨d₀, kind, hd₀, rfl, hk⟩ := h.converts.of_definition? hd
  obtain ⟨d₀', content₀, l₀, hd₀', hmem₀, hstage₀, hy⟩ := hxy
  cases hd₀.symm.trans hd₀'
  cases hk with
  | same =>
    rw [DefinitionKind.contents_eq_of_mem hmem] at hmem₀
    rw [List.mem_singleton.1 hmem₀, hstage] at hstage₀
    cases hstage₀
    exact hy
  | fonts =>
    obtain ⟨⟨source, _ | _ | _⟩, -, rfl⟩ := DefinitionKind.mem_contents_mapContents.1 hmem <;>
      cases hstage

end Context

section
variable {handle : DefinitionId → Engine Unit} (hconverts : ∀ y, (handle y).Moves Converts)
  (hh : ∀ y, (handle y).Secures c.Completes KeepsConverted fun _ c' => c.Completed c' y)
include hconverts hh

theorem secures_convert {targets : List DefinitionId → Engine Unit} {d : Definition}
    {content : Content} {r : Except Error Unit}
    (ht : ∀ ids, targets ids = ids.forM handle ∨ targets ids = Engine.runAll (ids.map handle))
    (hc : c.Completes c₁) (hd : c₁.definition? id = some d) (hmem : content ∈ d.kind.contents)
    (h : (Engine.convert targets id content).Gives c₁ r c₂) :
    c.Completes c₂ ∧ Converts c₁ c₂ ∧ (r = .ok () → c₂.IsConvertedAt id) := by
  have hmoves : ∀ ids, (targets ids).Moves Converts := fun ids =>
    Engine.each_moves composes_converts hconverts (ht ids)
  have hall : ∀ ids, (targets ids).Secures c.Completes KeepsConverted fun _ c' =>
      ∀ y ∈ ids, c.Completed c' y := by
    intro ids
    rcases ht ids with he | he <;> rw [he]
    · exact .forM composes_keepsConverted (fun _ _ _ hk hy => hy.keeps hk) fun y _ => hh y
    · exact .runAll composes_keepsConverted (fun _ _ _ hk hy => hy.keeps hk) fun y _ => hh y
  suffices hgoal : c.Completes c₂ by
    refine ⟨hgoal, converts_convert hmoves hd hmem h, ?_⟩
    rintro rfl
    exact (isConvertedAt_of_convert hmoves hd hmem h).2
  unfold Engine.convert at h
  split at h
  · obtain ⟨-, rfl⟩ := Engine.gives_fail.1 h
    exact hc
  · obtain ⟨-, rfl⟩ := Engine.gives_pure.1 h
    exact hc
  · rename_i l hstage
    rcases Engine.gives_bind.1 h with ⟨_, c₃, h₁, h₂⟩ | ⟨e, h₁, rfl⟩
    · obtain ⟨hc₃, -, hdone⟩ := hall _ _ _ _ hc h₁
      have hconvert := converts_convertContent h₂
      refine ⟨?_, fun {x y} hxy hx => ?_⟩
      · rw [hconvert.depth]
        exact hc₃.converts.trans hconvert
      · have hkeeps : KeepsConverted c₃ c₂ := fun _ hx => hconvert.isConvertedAt hx
        by_cases hne : x = id
        · subst hne
          exact (hdone () rfl y (hc.mem_targets hd hmem hstage hxy)).keeps hkeeps
        · rw [IsConvertedAt, definition?_convertContent h₂ hne] at hx
          exact (hc₃.texts hxy hx).keeps hkeeps
    · exact (hall _ _ _ _ hc h₁).1

/-- A font pass that ends with a value has converted all that it leads to. -/
theorem secures_completed (id : DefinitionId) : (Engine.fontPass handle id).Secures c.Completes
    KeepsConverted fun _ c' => c.Completed c' id := by
  intro c₁ r c' hc h
  obtain ⟨d, hd, hpass⟩ := Engine.gives_fontPass h
  suffices hgoal : c.Completes c' ∧ Converts c₁ c' ∧ (r = .ok () →
      c'.IsConvertedAt id ∧ ∀ y ∈ d.kind.parts, c.Completed c' y) by
    obtain ⟨hc', hconvert, hdone⟩ := hgoal
    refine ⟨hc', fun _ hx => hconvert.isConvertedAt hx, fun _ hr z hz => ?_⟩
    obtain ⟨hid, hparts⟩ := hdone hr
    rcases hz.cases_head with rfl | ⟨y, hlink, hz⟩
    · exact hid
    · rcases hlink with htext | ⟨d₀, hd₀, hy⟩
      · exact hc'.texts htext hid z hz
      · obtain ⟨kind, hd', hk⟩ := hc.converts.definition hd₀
        cases hd.symm.trans hd'
        exact hparts y (hk.parts_eq ▸ hy) z hz
  cases hpass with
  | @parts targets r₁ r₂ c₂ _ hkind htargets htext hparts =>
    have htext : c.Completes c₂ ∧ Converts c₁ c₂ ∧ (r₁ = .ok () → c₂.IsConvertedAt id) := by
      rcases htext with ⟨hnil, rfl, rfl⟩ | ⟨content, hmem, hcontent⟩
      · exact ⟨hc, .refl _, fun _ => ⟨d, hd, by rw [hnil]; simp⟩⟩
      · exact secures_convert hconverts hh htargets hc hd hmem hcontent
    obtain ⟨hc₂, hconvert, hid⟩ := htext
    obtain ⟨hc', -, hchildren⟩ := Engine.Secures.runAll composes_keepsConverted
      (fun _ _ _ hk hy => hy.keeps hk) (fun y _ => hh y) _ _ _ hc₂ hparts
    have hconvert' := Engine.each_moves composes_converts hconverts (Or.inr rfl) _ _ _ hparts
    refine ⟨hc', hconvert.trans hconvert', fun hr => ?_⟩
    obtain ⟨hr₁, hr₂⟩ := Engine.firstError_eq_ok.1 hr
    refine ⟨hconvert'.isConvertedAt (hid hr₁), fun y hy => hchildren () hr₂ y ?_⟩
    rw [DefinitionKind.parts, (DefinitionKind.isAimed_of_not_reference hkind).2] at hy
    simpa using hy
  | @target reference t _ _ hk ht hgives =>
    obtain ⟨hc', -, hdone⟩ := hh t _ _ _ hc hgives
    have hconvert := hconverts t _ _ _ hgives
    refine ⟨hc', hconvert, fun hr => ⟨hconvert.isConvertedAt ⟨d, hd, ?_⟩, fun y hy => ?_⟩⟩
    · rw [hk]
      simp [DefinitionKind.contents]
    · rw [hk, DefinitionKind.parts, DefinitionKind.target?, ht] at hy
      obtain rfl : y = t := by simpa [DefinitionKind.children] using hy
      exact hdone () hr
  | missing => exact ⟨hc, .refl _, by simp⟩

end

/-- What the font pass of a definition leads to is converted when the pass has ended with a value,
    however deep it nests. -/
theorem completed_handleFonts (n : Nat) (id : DefinitionId) :
    (Engine.handleFonts n id).Secures c.Completes KeepsConverted fun _ c' => c.Completed c' id := by
  induction n generalizing id with
  | zero =>
    intro c₁ r c' _ h
    exact (Engine.gives_endless.1 h).elim
  | succ n ih =>
    intro c₁ r c' hc h
    rw [Engine.handleFonts, Engine.gives_definition_bind] at h
    obtain ⟨d, -, h⟩ := h
    exact Engine.Secures.nested composes_keepsConverted (fun _ _ _ hx => hx)
      (fun depth hc => hc.atDepth depth) (fun hk hy => hy.keeps hk)
      (secures_completed (converts_handleFonts n) ih id) _ _ _ hc h

/-- **What a font pass leads to that ends with a value is grounded.** -/
theorem grounded_of_handleFonts {n : Nat} (h : (Engine.handleFonts n id).Gives c (.ok ()) c') :
    c.Grounded (c.Waits id) := by
  intro x hx
  obtain ⟨-, -, hcompleted⟩ := completed_handleFonts n id _ _ _ (completes_refl c) h
  obtain ⟨d', hd', hconverted⟩ := hcompleted () rfl x hx
  obtain ⟨d, kind, hd, rfl, hk⟩ := (converts_handleFonts n id _ _ _ h).of_definition? hd'
  refine ⟨d, hd, fun y hy => hx.tail hy, fun content hmem l hstage => ?_⟩
  cases hk with
  | same =>
    obtain ⟨inlines, hinlines⟩ := hconverted content hmem
    cases hstage.symm.trans hinlines
  | fonts htags => rw [htags]; rfl

end Rubric
