/-
  Rubric — what becomes of shared definitions.

  Definitions that belong to no document are handled by whoever comes to them
  first, from contexts in which more or less has been handled before.  What becomes
  of them is the same all the same: it is laid down by a context in which as many of
  them as possible are handled, whatever the order.

  * `Engine.granting`: takes what is resolved for granted, and has no answer
    elsewhere;
  * `Context.Nears document f c`: what is resolved of shared definitions in `c` is
    as in `f`;
  * `Context.IsSaturated f`: in `f` those shared texts are handled, and just as, that
    can be from there; **`exists_saturated`**: such a context;
  * **`Nears.grants`**: what a shared text becomes in a context that nears `f`, it
    becomes in `f`; **`Nears.agrees`**: what it becomes in `f`, it becomes in such a
    context, if anything.
-/
import Rubric.Proofs.Match

namespace Rubric

open Context Engine

variable {document : DocumentId} {f g c c' c₁ : Context} {x y : DefinitionId}

/-! ## What is granted -/

open Classical in
/-- The pass of a definition that has nothing left to do.  Where anything is, there is no
    answer. -/
noncomputable def Engine.granting (y : DefinitionId) : Engine Unit := do
  if (← get).Resolved y then pure () else endless

namespace Engine

theorem gives_granting {r : Except Error Unit} :
    (granting y).Gives c r c' ↔ c.Resolved y ∧ r = .ok () ∧ c' = c := by
  rw [granting, gives_get_bind]
  split
  · rename_i h
    simp [h]
  · rename_i h
    simp [h]

theorem keepsParted_granting : KeepsParted granting where
  resolves y c r c' hs h := by
    obtain ⟨hr, -, rfl⟩ := gives_granting.1 h
    exact ⟨hs, .refl _, fun _ _ => hr⟩
  parted y c r c' h := by
    obtain ⟨-, -, rfl⟩ := gives_granting.1 h
    exact composes_staysParted.refl _

end Engine

/-! ## Contexts that near another one -/

/-- Where nothing is left to be resolved that was written, there was nothing to be resolved. -/
theorem DefinitionKind.IsResolved.unresolved_eq {kind : DefinitionKind}
    (h : kind.unresolved.IsResolved) : kind.unresolved = kind := by
  obtain ⟨hhandled, -, haimed⟩ := h
  rcases kind with ⟨_ | title, _⟩ | content | content | reference | _ | _ | _
  case partReference =>
    have hsome := haimed _ rfl
    cases hsome
  case section.some => exact absurd rfl (hhandled _ (List.mem_singleton_self _))
  case stanza | paragraph => exact absurd rfl (hhandled _ (List.mem_singleton_self _))
  all_goals rfl

/-- A definition with a text is as it was written if the text is unread. -/
theorem DefinitionKind.eq_unresolved_iff {kind : DefinitionKind} {content : Content}
    (h : content ∈ kind.contents) : kind = kind.unresolved ↔ content.stage = .unparsed := by
  have hcontent : ∀ content : Content,
      content = .ofSource content.source ↔ content.stage = .unparsed := by
    rintro ⟨source, stage⟩
    simp [Content.ofSource]
  rcases kind with ⟨_ | title, children⟩ | text | text | reference | _ | _ | _ <;>
    simp [contents] at h <;> subst h <;> simp [unresolved, mapContents, ← hcontent]

namespace Context

/-- All was written in the context that was written in `f`, but for one document, and definitions
    that belong to no document are as in `f`, or as they were written. -/
structure Nears (document : DocumentId) (f c : Context) : Prop where
  parted : c.IsParted
  written : WrittenAlike document f c
  kind : ∀ {x d d'}, c.definition? x = some d → f.definition? x = some d' → d.document = none →
    d.kind = d'.kind ∨ d.kind = d'.kind.unresolved

namespace Nears

theorem refl (hf : f.IsParted) : Nears document f f where
  parted := hf
  written := .of_unresolved_eq rfl
  kind hd hd' _ := by
    cases hd.symm.trans hd'
    exact Or.inl rfl

section
variable (h : Nears document f c)
include h

theorem of_core_eq (he : c'.core = c.core) : Nears document f c' where
  parted := h.parted.of_core_eq he
  written := h.written.congr rfl (unresolved_of_core_eq he)
  kind {x d d'} hd hd' hnone := by
    obtain ⟨references, hd₁⟩ := definition?_of_core_eq he.symm hd
    have hkind := h.kind hd₁ hd'
    exact hkind hnone

/-- What is resolved is as in `f`. -/
theorem kind_eq {d d' : Definition} (hd : c.definition? x = some d)
    (hd' : f.definition? x = some d') (hnone : d.document = none) (hr : d.kind.IsResolved) :
    d.kind = d'.kind := by
  rcases h.kind hd hd' hnone with he | he
  · exact he
  · rw [he] at hr ⊢
    exact hr.unresolved_eq

/-- What is resolved is resolved in `f`. -/
theorem resolved (hx : c.Lies (· = none) x) (hr : c.Resolved x) : f.Resolved x := by
  refine resolved_of_closed (S := fun x => c.Lies (· = none) x ∧ c.Resolved x) ?_ ⟨hx, hr⟩
  rintro x ⟨⟨d, hd, hnone⟩, hr⟩
  obtain ⟨d₁, hd₁, hk, hlinks⟩ := resolved_iff.1 hr
  cases hd₁.symm.trans hd
  obtain ⟨d', hd', -⟩ := h.written.symm.definition? hd
  have he := h.kind_eq hd hd' hnone hk
  refine ⟨d', hd', he ▸ hk, fun y hy => ?_⟩
  rw [← he] at hy
  exact ⟨(h.parted.links hd hy).lies rfl hnone, hlinks y hy⟩

/-- Contexts that near the same one match. -/
theorem «matches» (h' : Nears document f c') : Matches document (· = none) c c' where
  first := h.parted
  second := h'.parted
  written := h.written.symm.trans h'.written
  kind {x d d'} hd hd' hnone hk hk' := by
    obtain ⟨e, he, -⟩ := h.written.symm.definition? hd
    obtain ⟨_, hd₁, halike⟩ := (h.written.symm.trans h'.written).definition? hd
    cases hd₁.symm.trans hd'
    have hnone' : d'.document = none := halike.document_eq.trans hnone
    rw [h.kind_eq hd he hnone hk, h'.kind_eq hd' he hnone' hk']

end

end Nears

/-- Passes run side by side from contexts that near the same one, and stay so whatever changes in
    their records. -/
theorem compares_of_nears {handle handle' : DefinitionId → Engine Unit} {X Y : Context → Prop}
    (hh : KeepsParted handle) (hh' : KeepsParted handle')
    (hX : ∀ {c}, X c → Nears document f c) (hY : ∀ {c}, Y c → Nears document f c)
    (hXcore : ∀ {c c₁}, X c → c₁.core = c.core → X c₁)
    (hYcore : ∀ {c c₁}, Y c → c₁.core = c.core → Y c₁) :
    Compares document (· = none) f handle handle' fun c c' => X c ∧ Y c' where
  loose := rfl
  first := hh
  second := hh'
  alike h := (hX h.1).matches (hY h.2)
  written h := (hX h.1).written
  warn {c c'} h warnings :=
    ⟨hXcore h.1 (c.core_warnAll warnings), hYcore h.2 (c'.core_warnAll warnings)⟩
  reference {c c'} h definition user :=
    ⟨hXcore h.1 (c.core_addReference definition user),
      hYcore h.2 (c'.core_addReference definition user)⟩
  counter hd hne := absurd hd hne
  number hd hne := absurd hd hne
  route {c c' d} _ h _ :=
    ⟨hXcore h.1 (c.core_modifyFootnotes d _), hYcore h.2 (c'.core_modifyFootnotes d _)⟩

namespace Nears

variable {handle : DefinitionId → Engine Unit} (hh : KeepsParted handle) (hf : f.IsParted)
  {d : Definition} {content : Content}
include hh hf

/-- **What a shared text becomes is granted in `f`**, if the passes of shared definitions near `f`
    where they succeed. -/
theorem grants (h : Nears document f c)
    (hkeeps : ∀ y, f.Lies (· = none) y → ∀ {c c₁}, Nears document f c →
      (handle y).Gives c (.ok ()) c₁ → Nears document f c₁)
    (hd : c.definition? x = some d) (hnone : d.document = none)
    (hcontent : content ∈ d.kind.contents) {l : List Inline}
    (hl : (resolveSource handle x content.source).Gives c (.ok l) c₁) :
    ∃ f', (resolveSource granting x content.source).Gives f (.ok l) f' := by
  have hcompares := compares_of_nears (X := Nears document f) (Y := fun g => g.core = f.core) hh
    keepsParted_granting (fun h => h) (fun he => (refl hf).of_core_eq he)
    (fun h he => h.of_core_eq he) fun he he' => he'.trans he
  have hecho : Echoes .values _ _ _ := hcompares.echoes_resolveSource
    (fun y hy {c g} hR r c' h' => ?_) hd hnone hcontent ⟨h, rfl⟩
  · rcases hecho _ _ hl with ⟨f', hf', -⟩ | ⟨_, hr, -⟩ | hexempt
    · exact ⟨f', hf'⟩
    · cases hr
    · exact hexempt.elim
  · rcases r with e | ⟨⟨⟩⟩
    · exact Or.inr (Or.inl ⟨e, rfl, trivial⟩)
    · have hc' := hkeeps y hy hR.1 h'
      have hr := (hh.resolves y _ _ _ hR.1.parted.sound h').2.2 () rfl
      have hresolved := hc'.resolved (hy.of_writtenAlike hc'.written) hr
      have hgranted := (Step.of_core_eq hR.2 : Step .commands f g).resolved hresolved
      exact Or.inl ⟨g, gives_granting.2 ⟨hgranted, rfl, rfl⟩, hc', hR.2⟩

/-- **What is granted in `f` a shared text becomes**, if it becomes anything, and if the passes of
    what is resolved in `f` succeed where they end. -/
theorem agrees (h : Nears document f c)
    (hkeeps : ∀ y, f.Lies (· = none) y → f.Resolved y → ∀ {c r c₁}, Nears document f c →
      (handle y).Gives c r c₁ → r = .ok () ∧ Nears document f c₁)
    (hd : f.definition? x = some d) (hnone : d.document = none)
    (hcontent : content ∈ d.kind.contents) {l : List Inline} {f' : Context}
    (hl : (resolveSource granting x content.source).Gives f (.ok l) f')
    {r : Except Error (List Inline)}
    (hr : (resolveSource handle x content.source).Gives c r c₁) : r = .ok l := by
  have hcompares := compares_of_nears (X := fun g => g.core = f.core) (Y := Nears document f)
    keepsParted_granting hh (fun he => (refl hf).of_core_eq he) (fun h => h)
    (fun he he' => he'.trans he) fun h he => h.of_core_eq he
  refine (echoes_answers.1 (hcompares.echoes_resolveSource (fun y hy {g c} hR => ?_) hd hnone
    hcontent ⟨rfl, h⟩) hl hr).1
  refine echoes_answers.2 fun {r g' r' c'} hg hc' => ?_
  obtain ⟨hgranted, rfl, rfl⟩ := gives_granting.1 hg
  have hresolved := (Step.of_core_eq hR.1.symm : Step .commands g' f).resolved hgranted
  obtain ⟨hok, hc'⟩ := hkeeps y hy hresolved hR.2 hc'
  exact ⟨hok, hR.1, hc'⟩

end Nears

/-! ## Saturated contexts -/

/-- The shared texts that are handled in the context are handled as is granted there. -/
structure IsGranted (f : Context) : Prop where
  parted : f.IsParted
  handled : ∀ {x d content}, f.definition? x = some d → d.document = none →
    content ∈ d.kind.contents → content.IsHandled → ∃ l f', content.stage = .commandsResolved l ∧
      (resolveSource granting x content.source).Gives f (.ok l) f'

/-- In such a context nothing is left to be granted: neither a text nor the target of a part
    reference. -/
structure IsSaturated (f : Context) : Prop extends f.IsGranted where
  texts : ∀ {x d content l f'}, f.definition? x = some d → d.document = none →
    content ∈ d.kind.contents → (resolveSource granting x content.source).Gives f (.ok l) f' →
    content.IsHandled
  aimed : ∀ {x d reference}, f.definition? x = some d → d.document = none →
    d.kind = .partReference reference → reference.target = f.lookup? reference.targetKey none

open Classical in
/-- The definitions that are as they were written. -/
noncomputable def untouched (f : Context) : Finset Nat :=
  (Finset.range f.definitions.size).filter fun i =>
    ∃ d, f.definition? ⟨i⟩ = some d ∧ d.kind = d.kind.unresolved

theorem mem_untouched {i : Nat} :
    i ∈ f.untouched ↔ ∃ d, f.definition? ⟨i⟩ = some d ∧ d.kind = d.kind.unresolved := by
  classical
  rw [untouched, Finset.mem_filter, Finset.mem_range]
  refine and_iff_right_of_imp ?_
  rintro ⟨d, hd, -⟩
  exact index_lt_of_definition? hd

/-- The second context is the first one but for one shared definition, which was as it was written,
    and is not any more. -/
structure Ripens (x : DefinitionId) (f g : Context) : Prop where
  parted : g.IsParted
  written : g.unresolved = f.unresolved
  other : ∀ {y d'}, y ≠ x → g.definition? y = some d' →
    ∃ d, f.definition? y = some d ∧ d.document = d'.document ∧ d.kind = d'.kind
  before : ∀ {d}, f.definition? x = some d → d.kind = d.kind.unresolved
  after : ∀ {d'}, g.definition? x = some d' → d'.kind ≠ d'.kind.unresolved

namespace Ripens

variable (h : Ripens x f g)
include h

/-- The first context nears the second one. -/
theorem nears (hf : f.IsParted) : Nears document g f where
  parted := hf
  written := .of_unresolved_eq h.written.symm
  kind {y d d'} hd hd' _ := by
    by_cases he : y = x
    · subst he
      obtain ⟨d₁, hd₁, hu⟩ := definition?_of_unresolved_eq h.written hd'
      cases hd₁.symm.trans hd
      right
      rw [h.before hd]
      exact congrArg Definition.kind hu
    · obtain ⟨d₁, hd₁, -, hk⟩ := h.other he hd'
      cases hd₁.symm.trans hd
      exact Or.inl hk

theorem card_untouched (hx : f.Lies (· = none) x) : g.untouched.card < f.untouched.card := by
  refine Finset.card_lt_card (Finset.ssubset_iff_subset_ne.2 ⟨fun i hi => ?_, fun he => ?_⟩)
  · obtain ⟨d', hd', hk'⟩ := mem_untouched.1 hi
    have hne : (⟨i⟩ : DefinitionId) ≠ x := by
      rintro rfl
      exact h.after hd' hk'
    obtain ⟨d, hd, -, hk⟩ := h.other hne hd'
    exact mem_untouched.2 ⟨d, hd, hk ▸ hk'⟩
  · obtain ⟨d, hd, -⟩ := hx
    have hmem : x.index ∈ g.untouched := he ▸ mem_untouched.2 ⟨d, hd, h.before hd⟩
    obtain ⟨d', hd', hk'⟩ := mem_untouched.1 hmem
    exact h.after hd' hk'

end Ripens

/-- A context that has ripened is as granted as it was, if what is new in it is granted. -/
theorem IsGranted.ripens (hf : f.IsGranted) (h : Ripens x f g)
    (hnew : ∀ {d content}, g.definition? x = some d → content ∈ d.kind.contents →
      content.IsHandled → ∃ l f', content.stage = .commandsResolved l ∧
        (resolveSource granting x content.source).Gives f (.ok l) f') : g.IsGranted where
  parted := h.parted
  handled {y d content} hd hnone hcontent hhandled := by
    have hgranted : ∃ l f', content.stage = .commandsResolved l ∧
        (resolveSource granting y content.source).Gives f (.ok l) f' := by
      by_cases he : y = x
      · subst he
        exact hnew hd hcontent hhandled
      · obtain ⟨d₀, hd₀, hdocument, hk⟩ := h.other he hd
        exact hf.handled hd₀ (hdocument.trans hnone) (hk ▸ hcontent) hhandled
    obtain ⟨l, f', hl, hf'⟩ := hgranted
    -- what is granted stays granted when more is resolved
    obtain ⟨d₀, hd₀, hdocument, content₀, hcontent₀, hsource⟩ :=
      content_of_unresolved_eq h.written hd hcontent
    rw [← hsource] at hf' ⊢
    have hnears : Nears ⟨0⟩ g f := h.nears hf.parted
    obtain ⟨g', hg'⟩ := hnears.grants keepsParted_granting h.parted (fun y _ c c₁ hc hy => by
      obtain ⟨-, -, rfl⟩ := gives_granting.1 hy
      exact hc) hd₀ (hdocument.trans hnone) hcontent₀ hf'
    exact ⟨l, g', hl, hg'⟩

/-- To resolve a source by what is granted changes records only. -/
theorem core_of_granting (hf : f.IsParted) {d : Definition} {content : Content}
    {r : Except Error (List Inline)} {f' : Context} (hd : f.definition? x = some d)
    (hcontent : content ∈ d.kind.contents)
    (h : (resolveSource granting x content.source).Gives f r f') : f'.core = f.core := by
  have hpermits : Permits (CommandKind.StaysIn d.document) fun c c' => c'.core = c.core := {
    refl := fun _ => rfl
    trans := fun h h' => h'.trans h
    warn := core_warnAll
    reference := core_addReference
    number := fun _ c document => c.core_modifyFootnotes document _
    boolean := fun hkind => absurd rfl hkind.1 }
  have hgranting : ∀ y, (granting y).Moves fun c c' => c'.core = c.core := fun y c r c' h => by
    obtain ⟨-, -, rfl⟩ := gives_granting.1 h
    rfl
  rcases gives_resolveSource h with ⟨_, -, -, rfl⟩ | ⟨written, tags, d', hwritten, -, hd', hl⟩
  · rfl
  cases hd.symm.trans hd'
  have hmoves : (Inline.executeList granting { owner := x, document := d.document } tags
      written).Moves fun c c' => c'.core = c.core :=
    Inline.executeList_moves hpermits hgranting written (hf.uses hd hcontent hwritten) tags
  rcases hl with ⟨e, -, hl⟩ | ⟨l, notes, c₁, -, hl, rfl⟩
  · exact hmoves _ _ _ hl
  · exact (c₁.core_modifyFootnotes d.document _).trans (hmoves _ _ _ hl)

/-- A text that is granted is handled. -/
theorem IsGranted.text (hf : f.IsGranted) {d : Definition} {content : Content} {l : List Inline}
    {f' : Context} (hd : f.definition? x = some d) (hcontent : content ∈ d.kind.contents)
    (hunparsed : content.stage = .unparsed)
    (hl : (resolveSource granting x content.source).Gives f (.ok l) f') :
    ∃ g, Ripens x f g ∧ g.IsGranted := by
  have hcore := core_of_granting hf.parted hd hcontent hl
  have hgives := gives_resolveContent_of_source hunparsed hl
  obtain ⟨hparted, hwritten⟩ := keepsParted_granting.resolveContent hd hcontent hgives hf.parted
  rw [modifyContent_eq] at hparted hwritten
  obtain ⟨references, hd₁⟩ := definition?_of_core_eq hcore hd
  have hcontents := DefinitionKind.contents_eq_of_mem hcontent
  have hripens : Ripens x f (f'.modifyDefinition x fun d =>
      { d with kind := d.kind.mapContents fun content => content.resolveCommands l }) := {
    parted := hparted
    written := hwritten
    other := fun {y d'} hne hd' => by
      obtain ⟨d₂, hd₂, rfl⟩ := definition?_modifyKind hd'
      obtain ⟨references, hd₃⟩ := definition?_of_core_eq hcore.symm hd₂
      exact ⟨_, hd₃, rfl, by simp [Ne.symm hne]⟩
    before := fun {d'} hd' => by
      cases hd.symm.trans hd'
      exact (DefinitionKind.eq_unresolved_iff hcontent).2 hunparsed
    after := fun {d'} hd' he => by
      obtain ⟨d₂, hd₂, rfl⟩ := definition?_modifyKind hd'
      cases hd₁.symm.trans hd₂
      have hmem : content.resolveCommands l ∈
          (d.kind.mapContents fun content => content.resolveCommands l).contents := by
        rw [DefinitionKind.contents_mapContents]
        exact List.mem_map_of_mem hcontent
      simp only [if_true] at he
      cases (DefinitionKind.eq_unresolved_iff hmem).1 he }
  refine ⟨_, hripens, hf.ripens hripens fun {d' content'} hd' hcontent' _ => ?_⟩
  obtain ⟨d₂, hd₂, rfl⟩ := definition?_modifyKind hd'
  cases hd₁.symm.trans hd₂
  simp only [if_true, DefinitionKind.contents_mapContents, hcontents, List.map_cons, List.map_nil,
    List.mem_singleton] at hcontent'
  subst hcontent'
  exact ⟨l, f', rfl, hl⟩

/-- A target is set. -/
theorem IsGranted.aim (hf : f.IsGranted) {d : Definition} {reference : PartReference}
    {target : DefinitionId} (hd : f.definition? x = some d)
    (hk : d.kind = .partReference reference) (hnone : reference.target = none)
    (hl : f.lookup? reference.targetKey d.document = some target) :
    ∃ g, Ripens x f g ∧ g.IsGranted := by
  obtain ⟨references, hd₁⟩ := definition?_addReference hd target x
  have hparted := hf.parted.setTarget hd hk hnone hl
  have hwritten := f.unresolved_setTarget x target
  rw [setTarget_eq] at hparted hwritten
  have hripens : Ripens x f ((f.addReference target x).modifyDefinition x fun d =>
      { d with kind := d.kind.setTarget target }) := {
    parted := hparted
    written := hwritten
    other := fun {y d'} hne hd' => by
      obtain ⟨d₂, hd₂, rfl⟩ := definition?_modifyKind hd'
      obtain ⟨references, hd₃⟩ := definition?_of_core_eq (f.core_addReference target x).symm hd₂
      exact ⟨_, hd₃, rfl, by simp [Ne.symm hne]⟩
    before := fun {d'} hd' => by
      cases hd.symm.trans hd'
      rcases reference with ⟨key, _⟩
      cases hnone
      rw [hk]
      rfl
    after := fun {d'} hd' he => by
      obtain ⟨d₂, hd₂, rfl⟩ := definition?_modifyKind hd'
      cases hd₁.symm.trans hd₂
      simp [hk, DefinitionKind.setTarget, DefinitionKind.unresolved] at he }
  refine ⟨_, hripens, hf.ripens hripens fun {d' content'} hd' hcontent' _ => ?_⟩
  obtain ⟨d₂, hd₂, rfl⟩ := definition?_modifyKind hd'
  cases hd₁.symm.trans hd₂
  simp [hk, DefinitionKind.setTarget, DefinitionKind.contents] at hcontent'

/-- **There is a saturated context** for whatever was written in contexts that keep documents
    apart. -/
theorem IsGranted.exists_saturated (hf : f.IsGranted) :
    ∃ g : Context, g.IsSaturated ∧ g.unresolved = f.unresolved := by
  induction hn : f.untouched.card using Nat.strong_induction_on generalizing f with
  | _ n ih =>
    subst hn
    have hripe : ∀ {x g}, f.Lies (· = none) x → Ripens x f g → g.IsGranted →
        ∃ g : Context, g.IsSaturated ∧ g.unresolved = f.unresolved := by
      intro x g hx hripens hg
      obtain ⟨g', hg', he⟩ := ih _ (hripens.card_untouched hx) hg rfl
      exact ⟨g', hg', he.trans hripens.written⟩
    by_contra hnone
    refine hnone ⟨f, { hf with texts := ?_, aimed := ?_ }, rfl⟩
    · intro x d content l f' hd hloose hcontent hl hunparsed
      obtain ⟨g, hripens, hg⟩ := hf.text hd hcontent hunparsed hl
      exact hnone (hripe ⟨d, hd, hloose⟩ hripens hg)
    · intro x d reference hd hloose hk
      rcases ht : reference.target with _ | target
      · rcases hl : f.lookup? reference.targetKey none with _ | target
        · rfl
        · obtain ⟨g, hripens, hg⟩ := hf.aim hd hk ht (hloose ▸ hl)
          exact absurd (hripe ⟨d, hd, hloose⟩ hripens hg) hnone
      · have haims := (hf.parted.encloses hd).aims hk ht
        rw [hloose] at haims
        exact haims.symm

end Context

end Rubric
