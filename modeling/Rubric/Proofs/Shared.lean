/-
  Rubric — what passes do to shared definitions.

  Passes that begin near a saturated context stay near it.  In a document they
  change what belongs to the document, and shared definitions they make what
  these are in the saturated context; all that the pass of a shared definition
  goes on to is so when it ends.

  * `Context.WorksIn document f s c c'`: between the contexts, no more was done than
    is done in the document `s`;
  * `Context.Level f c y`: whatever the pass of `y` goes on to is in `c` as it is
    in `f`;
  * `Engine.Serves`: what passes do from contexts near `f`;
    **`serves_handleCommands`**: command passes do so.
-/
import Rubric.Proofs.Rest
import Rubric.Proofs.Saturation

namespace Rubric

open Context Engine

variable {document : DocumentId} {f f' c c' c₁ c₂ : Context} {s : Option DocumentId}
  {x y t : DefinitionId} {d e : Definition} {content : Content}

/-! ## Part references -/

namespace Context

/-- The pass of a part reference goes on to `t`, its target, from the last context. -/
inductive Aims (c : Context) (x : DefinitionId) (d : Definition) (t : DefinitionId) : Context → Prop
  | target {reference : PartReference} :
      d.kind = .partReference reference → reference.target = some t → Aims c x d t c
  | found {reference : PartReference} :
      d.kind = .partReference reference → reference.target = none →
      c.lookup? reference.targetKey d.document = some t →
      Aims c x d t ((c.addReference t x).setTarget x t)

theorem Aims.target? (h : Aims c x d t c₁) (hd : c.definition? x = some d) :
    ∃ d₁, c₁.definition? x = some d₁ ∧ d₁.kind.target? = some t := by
  cases h with
  | target hk ht => exact ⟨d, hd, by rw [hk, DefinitionKind.target?, ht]⟩
  | found hk =>
    obtain ⟨references, hd₁⟩ := definition?_setTarget hd hk t
    exact ⟨_, hd₁, rfl⟩

/-- Nothing has changed but what the target is of the part reference. -/
theorem Aims.definition? {z : DefinitionId} {d₁ : Definition} (h : Aims c x d t c₁)
    (hd : c.definition? x = some d) (hd₁ : c₁.definition? z = some d₁) :
    d₁.kind.target? = some t ∨ ∃ d₀, c.definition? z = some d₀ ∧ d₀.kind = d₁.kind := by
  cases h with
  | target => exact Or.inr ⟨d₁, hd₁, rfl⟩
  | found hk =>
    rw [setTarget_eq] at hd₁
    obtain ⟨d₂, hd₂, rfl⟩ := definition?_modifyKind hd₁
    obtain ⟨references, hd₀⟩ := definition?_of_core_eq (c.core_addReference t x).symm hd₂
    by_cases hxz : x = z
    · subst hxz
      cases hd.symm.trans hd₀
      dsimp only at hk
      exact Or.inl (by simp [hk, DefinitionKind.setTarget, DefinitionKind.target?])
    · exact Or.inr ⟨_, hd₀, by simp [hxz]⟩

end Context

/-- A command pass handles a text and parts, or goes on to what the key of a part reference leads
    to, if it does. -/
theorem Engine.gives_commandPass_cases {handle : DefinitionId → Engine Unit}
    {r : Except Error Unit} (hc : c.IsParted) (h : (commandPass handle x).Gives c r c') :
    ∃ d, c.definition? x = some d ∧
      ((∀ reference, d.kind ≠ .partReference reference) ∧ (∃ r₁ r₂ c₁,
          (d.kind.contents = [] ∧ r₁ = .ok () ∧ c₁ = c ∨
            ∃ content ∈ d.kind.contents, (resolveContent handle x content).Gives c r₁ c₁) ∧
          (runAll (d.kind.children.map handle)).Gives c₁ r₂ c' ∧ r = firstError r₁ r₂) ∨
        ∃ reference, d.kind = .partReference reference ∧
          ((∃ t c₁, c.lookup? reference.targetKey d.document = some t ∧ Aims c x d t c₁ ∧
              (handle t).Gives c₁ r c') ∨
            c.lookup? reference.targetKey d.document = none ∧ reference.target = none ∧
              r = .error (.ofCause (.definitionNotFound reference.targetKey none)) ∧ c' = c)) := by
  obtain ⟨d, hd, hpass⟩ := gives_commandPass h
  refine ⟨d, hd, ?_⟩
  cases hpass with
  | parts hk htext hparts => exact Or.inl ⟨hk, _, _, _, htext, hparts, rfl⟩
  | target hk ht h =>
    exact Or.inr ⟨_, hk, Or.inl ⟨_, _, (hc.encloses hd).aims hk ht, .target hk ht, h⟩⟩
  | found hk hnone hl h => exact Or.inr ⟨_, hk, Or.inl ⟨_, _, hl, .found hk hnone hl, h⟩⟩
  | missing hk hnone hl => exact Or.inr ⟨_, hk, Or.inr ⟨hl, hnone, rfl, rfl⟩⟩

namespace Context

/-! ## Level definitions -/

/-- The definition is in `c` what it is in `f`. -/
def SameAt (f c : Context) (x : DefinitionId) : Prop :=
  (c.definition? x).map Definition.kind = (f.definition? x).map Definition.kind

/-- The pass of the first definition goes on to the second one. -/
def PassesTo (f : Context) (x y : DefinitionId) : Prop :=
  ∃ d, f.definition? x = some d ∧ y ∈ d.kind.parts

/-- What the pass of the definition goes on to in `f` is the same in both contexts. -/
def Level (f c : Context) (y : DefinitionId) : Prop :=
  ∀ z, Relation.ReflTransGen f.PassesTo y z → f.SameAt c z

theorem sameAt_iff (hd : c.definition? x = some d) (he : f.definition? x = some e) :
    f.SameAt c x ↔ d.kind = e.kind := by
  rw [SameAt, hd, he, Option.map_some, Option.map_some, Option.some.injEq]

theorem Level.of_parts (hx : f.SameAt c x) (h : ∀ y, f.PassesTo x y → f.Level c y) :
    f.Level c x := by
  intro z hz
  rcases Relation.ReflTransGen.cases_head hz with rfl | ⟨y, hy, hz⟩
  · exact hx
  · exact h y hy z hz

/-- The parts of shared definitions are shared. -/
theorem IsParted.lies_of_passesTo (hf : f.IsParted) (hx : f.Lies (· = none) x)
    (hxy : f.PassesTo x y) : f.Lies (· = none) y := by
  obtain ⟨d, hd, hy⟩ := hxy
  obtain ⟨d', hd', hnone⟩ := hx
  cases hd.symm.trans hd'
  refine (hf.links hd ?_).lies rfl hnone
  rw [DefinitionKind.mem_links]
  rw [DefinitionKind.parts, List.mem_append, Option.mem_toList] at hy
  exact Or.inr hy

theorem IsParted.lies_of_level (hf : f.IsParted) (hx : f.Lies (· = none) x)
    (hxy : Relation.ReflTransGen f.PassesTo x y) : f.Lies (· = none) y := by
  induction hxy with
  | refl => exact hx
  | tail _ hyz ih => exact hf.lies_of_passesTo ih hyz

/-- Every document sees what is shared. -/
theorem Lies.sees (hy : f.Lies (· = none) y) (s : Option DocumentId) : f.Sees s y := by
  obtain ⟨d, hd, hnone⟩ := hy
  exact ⟨d, hd, Or.inr hnone⟩

/-! ## Work in a document -/

/-- Between contexts that near `f`, no more was done than in the document `s`: other documents have
    stayed, and so has what was the same as in `f`. -/
structure WorksIn (document : DocumentId) (f : Context) (s : Option DocumentId) (c c' : Context) :
    Prop where
  nears : Nears document f c'
  other : ∀ {x d}, c.definition? x = some d → d.document ≠ none → d.document ≠ s →
    ∃ d', c'.definition? x = some d' ∧ d'.document = d.document ∧ d'.kind = d.kind
  same : ∀ {x}, f.Lies (· = none) x → f.SameAt c x → f.SameAt c' x
  lists : ∀ {a}, some a ≠ s → c'.footnoteList (some a) = c.footnoteList (some a)

/-- Besides, the shared targets that part references have got are level. -/
structure PassesIn (document : DocumentId) (f : Context) (s : Option DocumentId) (c c' : Context) :
    Prop extends WorksIn document f s c c' where
  aims : ∀ {x d' reference t}, c'.definition? x = some d' → d'.kind = .partReference reference →
    reference.target = some t → f.Lies (· = none) t →
    f.Level c' t ∨ ∃ d, c.definition? x = some d ∧ d.kind = d'.kind

theorem WorksIn.trans (h : WorksIn document f s c c₁) (h' : WorksIn document f s c₁ c₂) :
    WorksIn document f s c c₂ where
  nears := h'.nears
  other hd hne hs := by
    obtain ⟨d₁, hd₁, hdocument, hk⟩ := h.other hd hne hs
    obtain ⟨d₂, hd₂, hdocument', hk'⟩ := h'.other hd₁ (hdocument ▸ hne) (hdocument ▸ hs)
    exact ⟨d₂, hd₂, hdocument'.trans hdocument, hk'.trans hk⟩
  same hx hsame := h'.same hx (h.same hx hsame)
  lists ha := (h'.lists ha).trans (h.lists ha)

theorem WorksIn.level (h : WorksIn document f s c c') (hf : f.IsParted)
    (hy : f.Lies (· = none) y) (hlevel : f.Level c y) : f.Level c' y :=
  fun z hz => h.same (hf.lies_of_level hy hz) (hlevel z hz)

theorem PassesIn.trans (hf : f.IsParted) (h : PassesIn document f s c c₁)
    (h' : PassesIn document f s c₁ c₂) : PassesIn document f s c c₂ where
  toWorksIn := h.toWorksIn.trans h'.toWorksIn
  aims hd₂ hk₂ ht hloose := by
    rcases h'.aims hd₂ hk₂ ht hloose with hlevel | ⟨d₁, hd₁, he⟩
    · exact Or.inl hlevel
    · rcases h.aims hd₁ (he.trans hk₂) ht hloose with hlevel | ⟨d, hd, he'⟩
      · exact Or.inl (h'.level hf hloose hlevel)
      · exact Or.inr ⟨d, hd, he'.trans he⟩

/-- A change of records, among them no footnotes of other documents. -/
theorem PassesIn.of_core_eq (hc : Nears document f c) (he : c'.core = c.core)
    (hlists : ∀ {a}, some a ≠ s → c'.footnoteList (some a) = c.footnoteList (some a)) :
    PassesIn document f s c c' where
  nears := hc.of_core_eq he
  other {x d} hd _ _ := by
    obtain ⟨references, hd'⟩ := definition?_of_core_eq he hd
    exact ⟨_, hd', rfl, rfl⟩
  same {x} hx hsame := by
    obtain ⟨e, hf, -⟩ := hx
    obtain ⟨d, hd, -⟩ := hc.written.definition? hf
    obtain ⟨references, hd'⟩ := definition?_of_core_eq he hd
    rw [sameAt_iff hd hf] at hsame
    exact (sameAt_iff hd' hf).2 hsame
  lists := hlists
  aims {x d' _ _} hd' _ _ _ := by
    obtain ⟨references, hd⟩ := definition?_of_core_eq he.symm hd'
    exact Or.inr ⟨_, hd, rfl⟩

theorem PassesIn.refl (hc : Nears document f c) : PassesIn document f s c c :=
  .of_core_eq hc rfl fun _ => rfl

theorem PassesIn.atDepth (hc : Nears document f c) (depth : Nat) :
    PassesIn document f s c (c.atDepth depth) :=
  .of_core_eq hc (c.core_atDepth depth) fun _ => footnoteList_of_eq rfl rfl

/-- Footnotes of the document, or of none, change. -/
theorem PassesIn.modifyFootnotes (hc : Nears document f c) {a : Option DocumentId}
    (ha : a = s ∨ a = none) (g : FootnoteList → FootnoteList) :
    PassesIn document f s c (c.modifyFootnotes a g) := by
  refine .of_core_eq hc (c.core_modifyFootnotes a g) fun {b} hb => ?_
  rcases footnoteList_modifyFootnotes_cases c a g (some b) with he | ⟨rfl, -⟩
  · exact he
  · rcases ha with rfl | hnone
    · exact absurd rfl hb
    · cases hnone

/-- What a definition of the document holds is changed; a shared one becomes what it is in `f`. -/
theorem WorksIn.modifyKind {g : DefinitionKind → DefinitionKind} (hc : Nears document f c)
    (hd : c.definition? x = some d) (hs : d.document = s ∨ d.document = none)
    (hparted : (c.modifyDefinition x fun d => { d with kind := g d.kind }).IsParted)
    (hwritten : (c.modifyDefinition x fun d => { d with kind := g d.kind }).unresolved =
      c.unresolved)
    (hnew : d.document = none → ∀ {e}, f.definition? x = some e → g d.kind = e.kind) :
    WorksIn document f s c (c.modifyDefinition x fun d => { d with kind := g d.kind }) where
  nears := {
    parted := hparted
    written := hc.written.congr rfl hwritten
    kind := fun {y d' e} hd' he hnone => by
      obtain ⟨d₀, hd₀, rfl⟩ := definition?_modifyKind hd'
      by_cases hxy : x = y
      · subst hxy
        cases hd.symm.trans hd₀
        left
        simpa only [if_true] using hnew hnone he
      · simpa only [hxy, if_false] using hc.kind hd₀ he hnone }
  other {y d₀} hd₀ hne hother := by
    have hxy : x ≠ y := by
      rintro rfl
      cases hd.symm.trans hd₀
      exact hs.elim hother hne
    exact ⟨d₀, by rw [definition?_modifyDefinition, if_neg hxy, hd₀], rfl, rfl⟩
  same {y} hy hsame := by
    rw [SameAt, definition?_modifyDefinition]
    by_cases hxy : x = y
    · subst hxy
      obtain ⟨e, he, hnone⟩ := hy
      obtain ⟨d', hd', halike⟩ := hc.written.definition? he
      cases hd.symm.trans hd'
      rw [if_pos rfl, hd, he]
      exact congrArg some (hnew (halike.document_eq.trans hnone) he)
    · rw [if_neg hxy]
      exact hsame
  lists _ := footnoteList_of_eq rfl rfl

/-! ## Shared texts and targets -/

end Context

namespace DefinitionKind

variable {kind kind' : DefinitionKind}

/-- Definitions that were written the same have texts with the same source. -/
theorem content_of_unresolved_eq (h : kind'.unresolved = kind.unresolved)
    (hcontent : content ∈ kind'.contents) :
    ∃ content₀ ∈ kind.contents, content₀.source = content.source := by
  refine List.mem_map.1 (?_ : content.source ∈ kind.contents.map Content.source)
  rw [← sources_unresolved, ← h, sources_unresolved]
  exact List.mem_map_of_mem hcontent

/-- Nothing in a definition is resolved that has neither a text nor a target. -/
theorem unresolved_eq_self (hcontents : kind.contents = []) (htarget : kind.target? = none) :
    kind.unresolved = kind := by
  rcases kind with ⟨_ | title, _⟩ | _ | _ | ⟨key, target⟩ | _ | _ | _ <;>
    simp_all [contents, target?, unresolved, mapContents]

theorem contents_eq_nil_of_unresolved_eq (h : kind'.unresolved = kind.unresolved)
    (hcontents : kind'.contents = []) : kind.contents = [] := by
  rw [← List.map_eq_nil_iff (f := Content.source), ← sources_unresolved, ← h, sources_unresolved,
    hcontents, List.map_nil]

theorem target?_eq_none_of_unresolved_eq (h : kind'.unresolved = kind.unresolved)
    (hk : ∀ reference, kind' ≠ .partReference reference) : kind.target? = none := by
  rcases kind with _ | _ | _ | reference | _ | _ | _ <;> try rfl
  rcases kind' with _ | _ | _ | reference' | _ | _ | _ <;>
    first | exact absurd rfl (hk _) | cases h

/-- Once its text is handled, a definition is what was written and the inlines. -/
theorem resolveCommands_unresolved (hcontent : content ∈ kind.contents) (l : List Inline) :
    (kind.unresolved.mapContents fun content => content.resolveCommands l) =
      kind.mapContents fun content => content.resolveCommands l := by
  rcases kind with ⟨_ | title, _⟩ | text | text | reference | _ | _ | _ <;>
    first | rfl | cases hcontent

end DefinitionKind

namespace Context

/-- A shared text is granted one thing at most, and is that in a saturated context. -/
theorem IsSaturated.text_eq (hf : f.IsSaturated) (he : f.definition? x = some e)
    (hnone : e.document = none) {kind : DefinitionKind} (hk : kind.unresolved = e.kind.unresolved)
    (hcontent : content ∈ kind.contents) {l : List Inline}
    (hl : (resolveSource granting x content.source).Gives f (.ok l) f') :
    (kind.mapContents fun content => content.resolveCommands l) = e.kind := by
  obtain ⟨content₀, hcontent₀, hsource⟩ := DefinitionKind.content_of_unresolved_eq hk hcontent
  rw [← hsource] at hl
  obtain ⟨l', f₁, hstage, hl'⟩ :=
    hf.handled he hnone hcontent₀ (hf.texts he hnone hcontent₀ hl)
  cases hl.symm.trans hl'
  rw [← DefinitionKind.resolveCommands_unresolved hcontent, hk,
    DefinitionKind.resolveCommands_unresolved hcontent₀]
  refine DefinitionKind.mapContents_eq_self fun content₁ hcontent₁ => ?_
  rw [DefinitionKind.contents_eq_of_mem hcontent₀, List.mem_singleton] at hcontent₁
  subst hcontent₁
  rw [Content.resolveCommands, ← hstage]

/-- In a saturated context a shared part reference has the target that its key leads to. -/
theorem IsSaturated.reference_eq (hf : f.IsSaturated) (he : f.definition? x = some e)
    (hnone : e.document = none) {reference : PartReference}
    (hk : (DefinitionKind.partReference reference).unresolved = e.kind.unresolved) :
    e.kind = .partReference
      { reference with target := f.lookup? reference.targetKey none } := by
  rcases hkind : e.kind with _ | _ | _ | reference' | _ | _ | _ <;> rw [hkind] at hk <;>
    simp only [DefinitionKind.unresolved, DefinitionKind.mapContents,
      DefinitionKind.partReference.injEq, PartReference.mk.injEq, and_true, reduceCtorEq] at hk
  rw [hk, ← hf.aimed he hnone hkind]

namespace Nears

variable (hc : Nears document f c)
include hc

/-- What was written in a shared definition was written in `f`. -/
theorem shared (hd : c.definition? x = some d) (hnone : d.document = none) :
    ∃ e, f.definition? x = some e ∧ e.document = none ∧ d.kind.unresolved = e.kind.unresolved ∧
      (d.kind = e.kind ∨ d.kind = e.kind.unresolved) := by
  obtain ⟨e, he, halike⟩ := hc.written.symm.definition? hd
  refine ⟨e, he, halike.document_eq.trans hnone, (halike.kind_eq ?_).symm, hc.kind hd he hnone⟩
  simp [hnone]

/-- Near a saturated context, shared part references get the targets that they have there. -/
theorem worksIn_aims (hf : f.IsSaturated) (hd : c.definition? x = some d)
    (hs : d.document = s ∨ d.document = none) (ht : Aims c x d t c₁) :
    WorksIn document f s c c₁ := by
  cases ht with
  | target => exact (PassesIn.refl hc).toWorksIn
  | @found reference hk hnone hl =>
    have hadd : WorksIn document f s c (c.addReference t x) :=
      (PassesIn.of_core_eq hc (c.core_addReference t x) fun _ =>
        footnoteList_of_eq rfl rfl).toWorksIn
    obtain ⟨references, hd₁⟩ := definition?_addReference hd t x
    have hparted := hc.parted.setTarget hd hk hnone hl
    have hwritten := (c.unresolved_setTarget x t).trans
      (unresolved_of_core_eq (c.core_addReference t x)).symm
    refine hadd.trans ?_
    rw [setTarget_eq] at hparted hwritten ⊢
    refine .modifyKind hadd.nears hd₁ hs hparted hwritten fun hloose e he => ?_
    dsimp only at hloose ⊢
    obtain ⟨_, he', hnone', hk', -⟩ := hc.shared hd hloose
    cases he.symm.trans he'
    rw [hk] at hk'
    rw [hloose, ← hc.written.symm.lookup?] at hl
    rw [hf.reference_eq he hnone' hk', hl, hk]
    rfl

end Nears

end Context

/-! ## Passes -/

namespace Engine

/-- What passes do from contexts near `f`: they work in a document, what is resolved in `f` they
    resolve, and they leave shared definitions level. -/
structure Serves (document : DocumentId) (f : Context) (handle : DefinitionId → Engine Unit) : Prop
    extends KeepsParted handle where
  works : ∀ {s y c r c'}, f.Sees s y → Nears document f c → (handle y).Gives c r c' →
    PassesIn document f s c c'
  succeeds : ∀ {y c r c'}, f.Lies (· = none) y → f.Resolved y → Nears document f c →
    (handle y).Gives c r c' → r = .ok ()
  levels : ∀ {y c r c'}, f.Lies (· = none) y → Nears document f c → (handle y).Gives c r c' →
    f.Level c' y

namespace Serves

variable {handle : DefinitionId → Engine Unit} (h : Serves document f handle)
  (hf : f.IsSaturated) (hc : Nears document f c)
include h hf hc

/-! ### Texts -/

/-- To read a source is to work in the document of the text. -/
theorem works_resolveSource {r : Except Error (List Inline)} (hd : c.definition? x = some d)
    (hs : d.document = s ∨ d.document = none) (hcontent : content ∈ d.kind.contents)
    (hgives : (resolveSource handle x content.source).Gives c r c') :
    PassesIn document f s c c' := by
  -- a run beside itself: what the text sees is all whose passes commands run
  have hcompares : Compares document (fun d => d = s ∨ d = none) f handle handle
      fun c₁ c₁' => c₁' = c₁ ∧ PassesIn document f s c c₁ := {
    loose := Or.inr rfl
    first := h.toKeepsParted
    second := h.toKeepsParted
    alike := by
      rintro c₁ _ ⟨rfl, hc₁⟩
      refine ⟨hc₁.nears.parted, hc₁.nears.parted, .of_unresolved_eq rfl, fun hd hd' _ _ _ => ?_⟩
      cases hd.symm.trans hd'
      rfl
    written := fun hR => hR.2.nears.written
    warn := by
      rintro c₁ _ ⟨rfl, hc₁⟩ warnings
      exact ⟨rfl, hc₁.trans hf.parted (.of_core_eq hc₁.nears (core_warnAll _ warnings) fun _ =>
        footnoteList_of_eq rfl rfl)⟩
    reference := by
      rintro c₁ _ ⟨rfl, hc₁⟩ definition user
      exact ⟨rfl, hc₁.trans hf.parted (.of_core_eq hc₁.nears (core_addReference _ definition user)
        fun _ => footnoteList_of_eq rfl rfl)⟩
    counter := fun _ _ hR => by rw [hR.1]
    number := by
      rintro c₁ _ d hd - ⟨rfl, hc₁⟩
      exact ⟨rfl, hc₁.trans hf.parted (.modifyFootnotes hc₁.nears hd _)⟩
    route := by
      rintro c₁ _ d hd ⟨rfl, hc₁⟩ notes
      exact ⟨rfl, hc₁.trans hf.parted (.modifyFootnotes hc₁.nears hd _)⟩ }
  have hecho : Echoes .always _ _ _ := hcompares.echoes_resolveSource
    (fun y hy c₁ c₁' hR => ?_) hd hs hcontent ⟨rfl, .refl hc⟩
  · obtain ⟨_, -, -, hworks⟩ := hecho.gives hgives
    exact hworks
  · obtain ⟨rfl, hc₁⟩ := hR
    exact fun r c₂ hy' => Or.inl ⟨c₂, hy', rfl, hc₁.trans hf.parted (h.works hy hc₁.nears hy')⟩

/-- To handle a text is to work in its document. -/
theorem works_resolveContent {r : Except Error Unit} (hd : c.definition? x = some d)
    (hs : d.document = s ∨ d.document = none) (hcontent : content ∈ d.kind.contents)
    (hgives : (resolveContent handle x content).Gives c r c') : PassesIn document f s c c' := by
  have hparted := h.resolveContent hd hcontent hgives hc.parted
  rcases gives_resolveContent hgives with ⟨-, -, rfl⟩ | ⟨-, r₁, c₁, hsource, hends⟩
  · exact .refl hc
  have hworks := h.works_resolveSource hf hc hd hs hcontent hsource
  rcases hends with ⟨_, -, -, rfl⟩ | ⟨l, rfl, -, rfl⟩
  · exact hworks
  obtain ⟨hc₂, hwritten⟩ := hparted
  refine hworks.trans hf.parted ?_
  obtain ⟨d₁, hd₁, he₁⟩ := definition?_of_unresolved_eq (hwritten.symm.trans
    (unresolved_resolveCommands c₁ x l)) hd
  have hdocument : d₁.document = d.document := congrArg (fun d => d.document) he₁
  have hkind : d₁.kind.unresolved = d.kind.unresolved := congrArg Definition.kind he₁
  have hsame := unresolved_resolveCommands c₁ x l
  rw [modifyContent_eq] at hc₂ hsame ⊢
  refine { WorksIn.modifyKind hworks.nears hd₁ (hdocument ▸ hs) hc₂ hsame fun hnone e he => ?_ with
    aims := fun {y d' reference t} hd' hk _ _ => ?_ }
  · obtain ⟨_, he', hloose, hk, -⟩ := hc.shared hd (hdocument ▸ hnone)
    cases he.symm.trans he'
    obtain ⟨f', hl⟩ := hc.grants h.toKeepsParted hf.parted
      (fun y hy _ _ hc₁ hy' => (h.works (s := none) (hy.sees none) hc₁ hy').nears) hd
      (hdocument ▸ hnone) hcontent hsource
    obtain ⟨content₁, hcontent₁, hsource₁⟩ := DefinitionKind.content_of_unresolved_eq hkind.symm
      hcontent
    rw [← hsource₁] at hl
    exact hf.text_eq he hloose (hkind.trans hk) hcontent₁ hl
  · obtain ⟨d₂, hd₂, rfl⟩ := definition?_modifyKind hd'
    refine Or.inr ⟨d₂, hd₂, ?_⟩
    dsimp only at hk ⊢
    by_cases hxy : x = y
    · rw [if_pos hxy] at hk ⊢
      rcases hk₂ : d₂.kind with _ | _ | _ | _ | _ | _ | _ <;> rw [hk₂] at hk <;>
        first | rfl | cases hk
    · rw [if_neg hxy]

/-- A shared text that is handled in `f` can be handled. -/
theorem text_succeeds {r : Except Error Unit} (hd : c.definition? x = some d)
    (hnone : d.document = none) (hcontent : content ∈ d.kind.contents)
    (he : f.definition? x = some e) (hhandled : ∀ content ∈ e.kind.contents, content.IsHandled)
    (hgives : (resolveContent handle x content).Gives c r c') : r = .ok () := by
  rcases gives_resolveContent hgives with ⟨-, rfl, -⟩ | ⟨-, r₁, c₁, hsource, hends⟩
  · rfl
  obtain ⟨_, he', hnone', hk, -⟩ := hc.shared hd hnone
  cases he.symm.trans he'
  obtain ⟨content₀, hcontent₀, hsource₀⟩ := DefinitionKind.content_of_unresolved_eq hk hcontent
  obtain ⟨l, f', -, hl⟩ := hf.handled he hnone' hcontent₀ (hhandled _ hcontent₀)
  have hr := hc.agrees h.toKeepsParted hf.parted (fun y hy hresolved c r c₁ hc hy' =>
    ⟨h.succeeds hy hresolved hc hy',
      (h.works (s := none) (hy.sees none) hc hy').nears⟩) he hnone' hcontent₀ hl
    (hsource₀ ▸ hsource)
  subst hr
  rcases hends with ⟨_, hr, -⟩ | ⟨_, -, hr, -⟩
  · cases hr
  · exact hr

/-- A shared text is in the end what it is in `f`. -/
theorem sameAt_resolveContent {r : Except Error Unit} (hd : c.definition? x = some d)
    (hnone : d.document = none) (hcontent : content ∈ d.kind.contents)
    (hgives : (resolveContent handle x content).Gives c r c') : f.SameAt c' x := by
  obtain ⟨e, he, hnone', hk, hkind⟩ := hc.shared hd hnone
  obtain ⟨content₀, hcontent₀, -⟩ := DefinitionKind.content_of_unresolved_eq hk hcontent
  have hworks := h.works_resolveContent (s := none) hf hc hd (Or.inl hnone) hcontent hgives
  have hlies : f.Lies (· = none) x := ⟨e, he, hnone'⟩
  by_cases hhandled : content₀.IsHandled
  · have hall : ∀ content ∈ e.kind.contents, content.IsHandled := by
      rw [DefinitionKind.contents_eq_of_mem hcontent₀]
      simpa using hhandled
    have hok := h.text_succeeds hf hc hd hnone hcontent he hall hgives
    obtain ⟨d', hd', hdone⟩ :=
      (steps_resolveContent h.resolves hc.parted.sound hd hcontent hgives).2 hok
    rw [sameAt_iff hd' he]
    -- were the text still as it was written, it would not be handled
    obtain ⟨_, hd₁, hloose⟩ := hlies.of_writtenAlike hworks.nears.written
    cases hd'.symm.trans hd₁
    obtain ⟨_, he', -, hk', hkind'⟩ := hworks.nears.shared hd' hloose
    cases he.symm.trans he'
    refine hkind'.resolve_right fun hwritten => ?_
    obtain ⟨content', hcontent', -⟩ :=
      DefinitionKind.content_of_unresolved_eq (hk.trans hk'.symm) hcontent
    exact hdone content' hcontent'
      ((DefinitionKind.eq_unresolved_iff hcontent').1 (hwritten.trans hk'.symm))
  · have hwritten := (DefinitionKind.eq_unresolved_iff hcontent₀).2 (not_not.1 hhandled)
    refine hworks.same hlies ((sameAt_iff hd he).2 ?_)
    rcases hkind with hkind | hkind
    · exact hkind
    · exact hkind.trans hwritten.symm

/-! ### Nodes -/

/-- The passes of several nodes, one after the other. -/
theorem runAll {l : List DefinitionId} {r : Except Error Unit} (hl : ∀ y ∈ l, f.Sees s y)
    (hgives : (Engine.runAll (l.map handle)).Gives c r c') :
    PassesIn document f s c c' ∧ (∀ y ∈ l, f.Lies (· = none) y → f.Level c' y) ∧
      ((∀ y ∈ l, f.Lies (· = none) y ∧ f.Resolved y) → r = .ok ()) := by
  induction l generalizing c r with
  | nil =>
    obtain ⟨rfl, rfl⟩ := gives_pure.1 hgives
    exact ⟨.refl hc, by simp, fun _ => rfl⟩
  | cons x l ih =>
    obtain ⟨r₁, c₁, r₂, h₁, h₂, rfl⟩ := gives_runAll_cons.1 hgives
    have hworks := h.works (hl x (by simp)) hc h₁
    obtain ⟨hrest, hlevels, hsucceeds⟩ := ih hworks.nears (fun y hy => hl y (by simp [hy])) h₂
    refine ⟨hworks.trans hf.parted hrest, fun y hy hloose => ?_, fun hall => ?_⟩
    · rcases List.mem_cons.1 hy with rfl | hy
      · exact hrest.level hf.parted hloose (h.levels hloose hc h₁)
      · exact hlevels y hy hloose
    · obtain ⟨hloose, hresolved⟩ := hall x (by simp)
      rw [h.succeeds hloose hresolved hc h₁, hsucceeds fun y hy => hall y (by simp [hy])]
      rfl

/-- The pass of a node works in its document. -/
theorem works_commandPass {r : Except Error Unit} (hx : f.Sees s x)
    (hgives : (commandPass handle x).Gives c r c') : PassesIn document f s c c' := by
  obtain ⟨d, hd, hpass⟩ := gives_commandPass_cases hc.parted hgives
  obtain ⟨_, hd', hs⟩ := hx.of_writtenAlike hc.written
  cases hd.symm.trans hd'
  have hsees : ∀ {y}, c.Sees d.document y → f.Sees s y := by
    intro y hy
    refine (hy.of_writtenAlike hc.written.symm).imp fun e he => ⟨he.1, ?_⟩
    rcases he.2 with hy | hy
    · exact hs.imp hy.trans hy.trans
    · exact Or.inr hy
  rcases hpass with ⟨-, r₁, r₂, c₁, htext, hparts, -⟩ |
    ⟨reference, -, ⟨t, c₁, hl, haims, ht⟩ | ⟨-, -, -, rfl⟩⟩
  · have htext : PassesIn document f s c c₁ := by
      rcases htext with ⟨-, -, rfl⟩ | ⟨content, hcontent, htext⟩
      · exact .refl hc
      · exact h.works_resolveContent hf hc hd hs hcontent htext
    refine htext.trans hf.parted (h.runAll hf htext.nears (fun y hy => ?_) hparts).1
    exact hsees (hc.parted.links hd (DefinitionKind.mem_links_of_child hy))
  · have hworks := hc.worksIn_aims hf hd hs haims
    have hpasses := h.works (hsees (hc.parted.lookup? hl)) hworks.nears ht
    refine { hworks.trans hpasses.toWorksIn with aims := fun hd' hk htarget hloose => ?_ }
    rcases hpasses.aims hd' hk htarget hloose with hlevel | ⟨d₁, hd₁, he₁⟩
    · exact Or.inl hlevel
    rcases haims.definition? hd hd₁ with hx | ⟨d₀, hd₀, he₀⟩
    · rw [he₁, hk, DefinitionKind.target?, htarget] at hx
      cases hx
      exact Or.inl (h.levels hloose hworks.nears ht)
    · exact Or.inr ⟨d₀, hd₀, he₀.trans he₁⟩
  · exact .refl hc

/-- The pass of a shared node that is resolved in `f` succeeds. -/
theorem succeeds_commandPass {r : Except Error Unit} (hx : f.Lies (· = none) x)
    (hresolved : f.Resolved x) (hgives : (commandPass handle x).Gives c r c') : r = .ok () := by
  obtain ⟨d, hd, hpass⟩ := gives_commandPass_cases hc.parted hgives
  obtain ⟨_, hd', hnone⟩ := hx.of_writtenAlike hc.written
  cases hd.symm.trans hd'
  obtain ⟨e, he, hnone', hk, -⟩ := hc.shared hd hnone
  obtain ⟨_, he', hdone, hlinks⟩ := resolved_iff.1 hresolved
  cases he.symm.trans he'
  rcases hpass with ⟨-, r₁, r₂, c₁, htext, hparts, rfl⟩ |
    ⟨reference, hreference, ⟨t, c₁, hl, haims, ht⟩ | ⟨hl, -⟩⟩
  · have htext : r₁ = .ok () ∧ Nears document f c₁ := by
      rcases htext with ⟨-, rfl, rfl⟩ | ⟨content, hcontent, htext⟩
      · exact ⟨rfl, hc⟩
      · exact ⟨h.text_succeeds hf hc hd hnone hcontent he hdone.handled htext,
          (h.works_resolveContent (s := none) hf hc hd (Or.inl hnone) hcontent htext).nears⟩
    have hchildren : ∀ y ∈ d.kind.children, f.Lies (· = none) y ∧ f.Resolved y := by
      intro y hy
      rw [DefinitionKind.children_eq_of_unresolved_eq hk] at hy
      have hy := DefinitionKind.mem_links_of_child hy
      exact ⟨(hf.parted.links he hy).lies rfl hnone', hlinks y hy⟩
    rw [htext.1, (h.runAll (s := none) hf htext.2 (fun y hy => (hchildren y hy).1.sees none)
      hparts).2.2 hchildren]
    rfl
  · rw [hnone, ← hc.written.symm.lookup?] at hl
    have hkind := hf.reference_eq he hnone' (hreference ▸ hk)
    have ht' : t ∈ e.kind.links := by
      rw [DefinitionKind.mem_links, hkind]
      exact Or.inr (Or.inr hl)
    exact h.succeeds ((hf.parted.links he ht').lies rfl hnone') (hlinks t ht')
      (hc.worksIn_aims (s := none) hf hd (Or.inl hnone) haims).nears ht
  · rw [hnone, ← hc.written.symm.lookup?] at hl
    have hsome := hdone.aimed _ (hf.reference_eq he hnone' (hreference ▸ hk))
    rw [hl] at hsome
    cases hsome

/-- The pass of a shared node leaves it level. -/
theorem levels_commandPass {r : Except Error Unit} (hx : f.Lies (· = none) x)
    (hgives : (commandPass handle x).Gives c r c') : f.Level c' x := by
  obtain ⟨d, hd, hpass⟩ := gives_commandPass_cases hc.parted hgives
  obtain ⟨_, hd', hnone⟩ := hx.of_writtenAlike hc.written
  cases hd.symm.trans hd'
  obtain ⟨e, he, hnone', hk, hkind⟩ := hc.shared hd hnone
  have hparts : ∀ {c'}, f.SameAt c' x → (∀ y ∈ e.kind.parts, f.Level c' y) → f.Level c' x := by
    refine fun hsame hall => .of_parts hsame fun y hy => ?_
    obtain ⟨_, he', hy⟩ := hy
    cases he.symm.trans he'
    exact hall y hy
  rcases hpass with ⟨hreference, r₁, r₂, c₁, htext, hchildren, -⟩ |
    ⟨reference, hreference, ⟨t, c₁, hl, haims, ht⟩ | ⟨hl, htarget, -, rfl⟩⟩
  · have hnotarget := DefinitionKind.target?_eq_none_of_unresolved_eq hk hreference
    have htext : f.SameAt c₁ x ∧ Nears document f c₁ := by
      rcases htext with ⟨hcontents, -, rfl⟩ | ⟨content, hcontent, htext⟩
      · have hwritten := DefinitionKind.unresolved_eq_self
          (DefinitionKind.contents_eq_nil_of_unresolved_eq hk hcontents) hnotarget
        rw [hwritten, or_self] at hkind
        exact ⟨(sameAt_iff hd he).2 hkind, hc⟩
      · exact ⟨h.sameAt_resolveContent hf hc hd hnone hcontent htext,
          (h.works_resolveContent (s := none) hf hc hd (Or.inl hnone) hcontent htext).nears⟩
    have hlies : ∀ y ∈ d.kind.children, f.Lies (· = none) y := fun y hy => by
      have hsees := hc.parted.links hd (DefinitionKind.mem_links_of_child hy)
      exact (hsees.lies (P := (· = none)) rfl hnone).of_writtenAlike hc.written.symm
    obtain ⟨hworks, hlevels, -⟩ := h.runAll (s := none) hf htext.2
      (fun y hy => (hlies y hy).sees none) hchildren
    refine hparts (hworks.same hx htext.1) fun y hy => ?_
    rw [DefinitionKind.parts, hnotarget, Option.toList_none, List.append_nil,
      ← DefinitionKind.children_eq_of_unresolved_eq hk] at hy
    exact hlevels y hy (hlies y hy)
  · rw [hnone, ← hc.written.symm.lookup?] at hl
    have hkind := hf.reference_eq he hnone' (hreference ▸ hk)
    have hworks := hc.worksIn_aims (s := none) hf hd (Or.inl hnone) haims
    have hlies : f.Lies (· = none) t := (hf.parted.lookup? hl).lies rfl rfl
    obtain ⟨d₁, hd₁, ht₁⟩ := haims.target? hd
    have hsame : f.SameAt c₁ x := by
      obtain ⟨_, hd₁', hloose⟩ := hx.of_writtenAlike hworks.nears.written
      cases hd₁.symm.trans hd₁'
      refine (sameAt_iff hd₁ he).2 ((hworks.nears.kind hd₁ he hloose).resolve_right ?_)
      intro hwritten
      rw [hwritten, hkind] at ht₁
      cases ht₁
    refine hparts ((h.works (s := none) (hlies.sees none) hworks.nears ht).same hx hsame)
      fun y hy => ?_
    rw [hkind, DefinitionKind.parts, DefinitionKind.target?, hl] at hy
    cases List.mem_singleton.1 hy
    exact h.levels hlies hworks.nears ht
  · rw [hnone, ← hc.written.symm.lookup?] at hl
    have hkind' := hf.reference_eq he hnone' (hreference ▸ hk)
    rw [hl] at hkind'
    refine hparts ((sameAt_iff hd he).2 ?_) ?_
    · rw [hkind', hreference]
      rcases reference with ⟨key, _⟩
      cases htarget
      rfl
    · rw [hkind']
      simp [DefinitionKind.parts, DefinitionKind.children, DefinitionKind.target?]

end Serves

/-- **Command passes serve**, from contexts near a saturated one. -/
theorem serves_handleCommands (hf : f.IsSaturated) (n : Nat) :
    Serves document f (handleCommands n) := by
  induction n with
  | zero =>
    exact {
      keepsParted_handleCommands 0 with
      works := fun _ _ h => (gives_endless.1 h).elim
      succeeds := fun _ _ _ h => (gives_endless.1 h).elim
      levels := fun _ _ h => (gives_endless.1 h).elim }
  | succ n ih =>
    have hopen : ∀ {y c r c'}, Nears document f c → (handleCommands (n + 1) y).Gives c r c' →
        ∃ r₁ c₁ frame, (commandPass (handleCommands n) y).Gives (c.atDepth (c.depth + 1)) r₁ c₁ ∧
          r = (r₁.mapError fun e => e.within frame) ∧ c' = c₁.atDepth (c₁.depth - 1) := by
      intro y c r c' hc h
      rw [handleCommands, gives_definition_bind] at h
      obtain ⟨d, -, h⟩ := h
      rcases gives_nested h with ⟨limit, hlimit, -⟩ | ⟨r₁, c₁, h, hr, hc'⟩
      · rw [hc.parted.unlimited] at hlimit
        cases hlimit
      · exact ⟨r₁, c₁, _, h, hr, hc'⟩
    refine {
      keepsParted_handleCommands (n + 1) with
      works := fun {s y c r c'} hy hc h => ?_
      succeeds := fun {y c r c'} hy hresolved hc h => ?_
      levels := fun {y c r c'} hy hc h => ?_ }
    all_goals
      have hc₁ := hc.of_core_eq (c.core_atDepth (c.depth + 1))
      obtain ⟨r₁, c₁, frame, hpass, rfl, rfl⟩ := hopen hc h
    · have hworks := ih.works_commandPass hf hc₁ hy hpass
      exact ((PassesIn.atDepth hc _).trans hf.parted hworks).trans hf.parted
        (.atDepth hworks.nears _)
    · rw [ih.succeeds_commandPass hf hc₁ hy hresolved hpass]
      rfl
    · have hworks := ih.works_commandPass (s := none) hf hc₁ (hy.sees none) hpass
      exact (PassesIn.atDepth (s := none) hworks.nears _).level hf.parted hy
        (ih.levels_commandPass hf hc₁ hy hpass)

end Engine

end Rubric
