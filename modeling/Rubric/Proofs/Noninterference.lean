/-
  Rubric — documents do not interfere.

  Documents share definitions that belong to none of them, and whoever comes first
  handles these.  Still, what is written in one document makes no difference to
  another one.

  * `Context.Kin document f c c'`: near a saturated context, the contexts differ in
    one document, and in what has become of shared definitions;
  * **`Kin.echoes_handleCommands`**: command passes elsewhere end alike in both;
    `Kin.of_works`: passes in the document leave the contexts kin;
  * `Context.Settles document f c`: shared targets of part references are level;
    **`Kin.segments?`**: then texts elsewhere read the same in both;
  * `Context.HandlesAll`: command passes, one after the other; `Kin.ends`, `Kin.handlesAll`:
    one call in both contexts, and all of them;
  * **`noninterference`**: what nodes of other documents become.
-/
import Rubric.Proofs.Shared
import Rubric.Proofs.Wording

namespace Rubric

open Context Engine

variable {document : DocumentId} {f c c' c₁ c₁' c₂ c₂' : Context} {s : Option DocumentId}
  {x y t t' : DefinitionId} {d d' e : Definition} {content content' : Content}

theorem DefinitionKind.reference_of_unresolved_eq {kind kind' : DefinitionKind}
    {reference : PartReference} (h : kind'.unresolved = kind.unresolved)
    (hk : kind = .partReference reference) :
    ∃ reference', kind' = .partReference reference' ∧
      reference'.targetKey = reference.targetKey := by
  subst hk
  rcases kind' with _ | _ | _ | reference' | _ | _ | _ <;>
    simp [unresolved, mapContents] at h
  exact ⟨reference', rfl, h⟩

/-! ## Kin contexts -/

namespace Context

/-- Lists that are the same stay so when they are changed alike. -/
theorem footnoteList_modifyFootnotes_congr {a : Option DocumentId}
    (hhas : c'.HasList a = c.HasList a) (hlist : c'.footnoteList a = c.footnoteList a)
    (b : Option DocumentId) (g : FootnoteList → FootnoteList) :
    (c'.modifyFootnotes b g).footnoteList a = (c.modifyFootnotes b g).footnoteList a := by
  by_cases ha : c.HasList a
  · rw [footnoteList_modifyFootnotes c b g ha, footnoteList_modifyFootnotes c' b g (hhas ▸ ha),
      hlist]
  · have hnone : ∀ {c : Context}, ¬ c.HasList a → (c.modifyFootnotes b g).footnoteList a = {} :=
      fun hc => footnoteList_of_not_hasList (by rwa [hasList_modifyFootnotes])
    rw [hnone ha, hnone (hhas ▸ ha)]

/-- Near `f`, the contexts differ in one document, and in what has become of shared definitions. -/
structure Kin (document : DocumentId) (f c c' : Context) : Prop where
  first : Nears document f c
  second : Nears document f c'
  kind : ∀ {x d d'}, c.definition? x = some d → c'.definition? x = some d' → d.document ≠ none →
    d.document ≠ some document → d'.kind = d.kind
  lists : ∀ {a}, a ≠ document → c'.footnoteList (some a) = c.footnoteList (some a)

namespace Kin

variable (h : Kin document f c c')
include h

theorem written : WrittenAlike document c c' :=
  h.first.written.symm.trans h.second.written

/-- Kin contexts match in all documents but one. -/
theorem «matches» : Matches document (· ≠ some document) c c' where
  first := h.first.parted
  second := h.second.parted
  written := h.written
  kind {x d d'} hd hd' hne hk hk' := by
    by_cases hnone : d.document = none
    · exact (h.first.matches h.second).kind hd hd' hnone hk hk'
    · exact h.kind hd hd' hnone hne

/-- Work in the document, or on shared definitions, may be done in each context on its own. -/
theorem of_works (hs : s = none ∨ s = some document) (hworks : WorksIn document f s c c₁)
    (hworks' : WorksIn document f s c' c₁') : Kin document f c₁ c₁' where
  first := hworks.nears
  second := hworks'.nears
  kind {x d₁ d₁'} hd₁ hd₁' hnone hne := by
    have hother : ∀ {d : Definition}, d.document = d₁.document →
        d.document ≠ none ∧ d.document ≠ s := fun he =>
      ⟨he ▸ hnone, fun hds => hs.elim (fun hs => hnone (he ▸ hds.trans hs))
        fun hs => hne (he ▸ hds.trans hs)⟩
    obtain ⟨d, hd, halike⟩ := (hworks.nears.written.symm.trans h.first.written).definition? hd₁
    obtain ⟨d', hd', halike'⟩ := h.written.definition? hd
    have he' : d'.document = d₁.document := halike'.document_eq.trans halike.document_eq
    obtain ⟨hn, hds⟩ := hother halike.document_eq
    obtain ⟨_, hd₂, -, hk⟩ := hworks.other hd hn hds
    cases hd₁.symm.trans hd₂
    obtain ⟨hn', hds'⟩ := hother he'
    obtain ⟨_, hd₂', -, hk'⟩ := hworks'.other hd' hn' hds'
    cases hd₁'.symm.trans hd₂'
    rw [hk, hk', h.kind hd hd' hn (halike.document_eq ▸ hne)]
  lists {a} ha := by
    have hds : some a ≠ s := by
      rintro rfl
      rcases hs with hs | hs
      · cases hs
      · exact ha (Option.some.inj hs)
    rw [hworks.lists hds, hworks'.lists hds, h.lists ha]

/-- Records are changed, and footnotes alike. -/
theorem of_core_eq (hc : c₁.core = c.core) (hc' : c₁'.core = c'.core)
    (hlists : ∀ {a}, a ≠ document → c₁'.footnoteList (some a) = c₁.footnoteList (some a)) :
    Kin document f c₁ c₁' where
  first := h.first.of_core_eq hc
  second := h.second.of_core_eq hc'
  kind {x d₁ d₁'} hd₁ hd₁' := by
    obtain ⟨references, hd⟩ := definition?_of_core_eq hc.symm hd₁
    obtain ⟨references', hd'⟩ := definition?_of_core_eq hc'.symm hd₁'
    have hkind := h.kind hd hd'
    exact hkind
  lists := hlists

theorem modifyFootnotes (b : Option DocumentId) (g : FootnoteList → FootnoteList) :
    Kin document f (c.modifyFootnotes b g) (c'.modifyFootnotes b g) :=
  h.of_core_eq (c.core_modifyFootnotes b g) (c'.core_modifyFootnotes b g) fun ha =>
    footnoteList_modifyFootnotes_congr (h.written.hasList_eq _) (h.lists ha) b g

theorem addReference (definition user : DefinitionId) :
    Kin document f (c.addReference definition user) (c'.addReference definition user) :=
  h.of_core_eq (c.core_addReference definition user) (c'.core_addReference definition user) h.lists

theorem atDepth (depth depth' : Nat) : Kin document f (c.atDepth depth) (c'.atDepth depth') :=
  h.of_core_eq (c.core_atDepth depth) (c'.core_atDepth depth') h.lists

/-- One definition is changed alike. -/
theorem modifyKind {g : DefinitionKind → DefinitionKind}
    (hfirst : Nears document f (c.modifyDefinition x fun d => { d with kind := g d.kind }))
    (hsecond : Nears document f (c'.modifyDefinition x fun d => { d with kind := g d.kind })) :
    Kin document f (c.modifyDefinition x fun d => { d with kind := g d.kind })
      (c'.modifyDefinition x fun d => { d with kind := g d.kind }) where
  first := hfirst
  second := hsecond
  kind {y d₁ d₁'} hd₁ hd₁' hnone hne := by
    obtain ⟨d, hd, rfl⟩ := definition?_modifyKind hd₁
    obtain ⟨d', hd', rfl⟩ := definition?_modifyKind hd₁'
    dsimp only at hnone hne ⊢
    rw [h.kind hd hd' hnone hne]
  lists := h.lists

omit h in
/-- Runs side by side keep contexts kin. -/
theorem compares (n m : Nat) : Compares document (· ≠ some document) f (handleCommands n)
    (handleCommands m) (Kin document f) where
  loose := (Option.some_ne_none document).symm
  first := keepsParted_handleCommands n
  second := keepsParted_handleCommands m
  alike h := h.matches
  written h := h.first.written
  warn {c c'} h warnings :=
    h.of_core_eq (c.core_warnAll warnings) (c'.core_warnAll warnings) h.lists
  reference h := h.addReference
  counter {c c' d} hne hnone h := by
    obtain ⟨a, rfl⟩ := Option.ne_none_iff_exists'.1 hnone
    rw [h.lists fun ha => hne (congrArg some ha)]
  number _ _ h := h.modifyFootnotes _ _
  route _ h _ := h.modifyFootnotes _ _

/-! ### Nodes -/

section
variable (hne : d.document ≠ some document) (hd : c.definition? x = some d)
  (hd' : c'.definition? x = some d')
include hne hd hd'

/-- Unless a shared text is handled in `f`, the texts are the same. -/
theorem content_eq (hcontent : content ∈ d.kind.contents)
    (hcontent' : content' ∈ d'.kind.contents) :
    content' = content ∨ d.document = none ∧ ∃ e, f.definition? x = some e ∧
      ∀ content ∈ e.kind.contents, content.IsHandled := by
  by_cases hnone : d.document = none
  · obtain ⟨e, he, -, hk, hkind⟩ := h.first.shared hd hnone
    obtain ⟨_, hd₀, halike⟩ := h.written.definition? hd
    cases hd'.symm.trans hd₀
    obtain ⟨_, he', -, -, hkind'⟩ := h.second.shared hd' (halike.document_eq.trans hnone)
    cases he.symm.trans he'
    refine or_iff_not_imp_right.2 fun hpending => ?_
    obtain ⟨content₀, hcontent₀, hunparsed⟩ : ∃ content₀ ∈ e.kind.contents,
        content₀.stage = .unparsed := by
      by_contra hall
      exact hpending ⟨hnone, e, he, fun content₀ hcontent₀ hu => hall ⟨content₀, hcontent₀, hu⟩⟩
    have hwritten := (DefinitionKind.eq_unresolved_iff hcontent₀).2 hunparsed
    rw [← hwritten, or_self] at hkind hkind'
    rw [hkind, DefinitionKind.contents_eq_of_mem hcontent₀, List.mem_singleton] at hcontent
    rw [hkind', DefinitionKind.contents_eq_of_mem hcontent₀, List.mem_singleton] at hcontent'
    rw [hcontent, hcontent']
  · rw [h.kind hd hd' hnone hne, DefinitionKind.contents_eq_of_mem hcontent,
      List.mem_singleton] at hcontent'
    exact Or.inl hcontent'

variable (hf : f.IsSaturated)
include hf

/-- Part references get the same targets, unless they are shared. -/
theorem aims (haims : Aims c x d t c₁) (haims' : Aims c' x d' t c₁') : Kin document f c₁ c₁' := by
  obtain ⟨_, hd₀, halike⟩ := h.written.definition? hd
  cases hd'.symm.trans hd₀
  by_cases hnone : d.document = none
  · exact h.of_works (Or.inl rfl) (h.first.worksIn_aims hf hd (Or.inr hnone) haims)
      (h.second.worksIn_aims hf hd' (Or.inr (halike.document_eq.trans hnone)) haims')
  have hworks := h.first.worksIn_aims (s := d.document) hf hd (Or.inl rfl) haims
  have hworks' := h.second.worksIn_aims (s := d.document) hf hd' (Or.inl halike.document_eq) haims'
  have hk := h.kind hd hd' hnone hne
  cases haims with
  | target hk₁ ht =>
    cases haims' with
    | target => exact h
    | found hk₂ hno =>
      cases hk₁.symm.trans (hk.symm.trans hk₂)
      cases ht.symm.trans hno
  | found hk₁ hno =>
    cases haims' with
    | target hk₂ ht =>
      cases hk₁.symm.trans (hk.symm.trans hk₂)
      cases ht.symm.trans hno
    | found =>
      rw [setTarget_eq] at hworks hworks' ⊢
      rw [setTarget_eq]
      exact (h.addReference t x).modifyKind hworks.nears hworks'.nears

variable {n m : Nat} (hh : ∀ y, f.Lies (· ≠ some document) y → ∀ {c c'}, Kin document f c c' →
  Echoes .answers (Kin document f) ((handleCommands n y).answer? c)
    ((handleCommands m y).answer? c'))
include hh

/-- **A text is handled alike**, if the passes that it runs end alike. -/
theorem echoes_resolveContent (hcontent : content ∈ d.kind.contents)
    (hcontent' : content' ∈ d'.kind.contents) :
    Echoes .answers (Kin document f) ((resolveContent (handleCommands n) x content).answer? c)
      ((resolveContent (handleCommands m) x content').answer? c') := by
  have hn : Serves document f (handleCommands n) := serves_handleCommands hf n
  have hm : Serves document f (handleCommands m) := serves_handleCommands hf m
  obtain ⟨_, hd₀, halike⟩ := h.written.definition? hd
  cases hd'.symm.trans hd₀
  have hworks : ∀ {r c₂}, (resolveContent (handleCommands n) x content).Gives c r c₂ →
      PassesIn document f d.document c c₂ := fun hgives =>
    hn.works_resolveContent hf h.first hd (Or.inl rfl) hcontent hgives
  have hworks' : ∀ {r c₂}, (resolveContent (handleCommands m) x content').Gives c' r c₂ →
      PassesIn document f d.document c' c₂ := fun hgives =>
    hm.works_resolveContent hf h.second hd' (Or.inl halike.document_eq) hcontent' hgives
  rcases h.content_eq hne hd hd' hcontent hcontent' with rfl | ⟨hnone, e, he, hhandled⟩
  · by_cases hunparsed : content'.stage = .unparsed
    · refine (compares n m).echoes_resolveContent hh hd hne hcontent hunparsed
        (fun hR hc₂ hc₂' hgives hgives' => ?_) h
      have hnears := (hworks hgives).nears
      have hnears' := (hworks' hgives').nears
      rw [hc₂, modifyContent_eq] at hnears ⊢
      rw [hc₂', modifyContent_eq] at hnears' ⊢
      exact hR.modifyKind hnears hnears'
    · rw [resolveContent_of_isHandled _ x hunparsed, resolveContent_of_isHandled _ x hunparsed]
      exact echoes_pure _ h
  · refine echoes_answers.2 fun hgives hgives' => ?_
    rw [hn.text_succeeds hf h.first hd hnone hcontent he hhandled hgives,
      hm.text_succeeds hf h.second hd' (halike.document_eq.trans hnone) hcontent' he hhandled
        hgives']
    exact ⟨rfl, h.of_works (Or.inl hnone) (hworks hgives).toWorksIn (hworks' hgives').toWorksIn⟩

/-- So is the text of a node, if it has one. -/
theorem texts_end {r r' : Except Error Unit}
    (htext : d.kind.contents = [] ∧ r = .ok () ∧ c₁ = c ∨
      ∃ content ∈ d.kind.contents, (resolveContent (handleCommands n) x content).Gives c r c₁)
    (htext' : d'.kind.contents = [] ∧ r' = .ok () ∧ c₁' = c' ∨
      ∃ content ∈ d'.kind.contents, (resolveContent (handleCommands m) x content).Gives c' r' c₁') :
    r' = r ∧ Kin document f c₁ c₁' := by
  obtain ⟨_, hd₀, halike⟩ := h.written.definition? hd
  cases hd'.symm.trans hd₀
  have hk : d'.kind.unresolved = d.kind.unresolved := halike.kind_eq hne
  rcases htext with ⟨hnil, rfl, rfl⟩ | ⟨content, hcontent, htext⟩ <;>
    rcases htext' with ⟨hnil', rfl, rfl⟩ | ⟨content', hcontent', htext'⟩
  · exact ⟨rfl, h⟩
  · rw [DefinitionKind.contents_eq_nil_of_unresolved_eq hk.symm hnil] at hcontent'
    cases hcontent'
  · rw [DefinitionKind.contents_eq_nil_of_unresolved_eq hk hnil'] at hcontent
    cases hcontent
  · exact echoes_answers.1 (h.echoes_resolveContent hne hd hd' hf hh hcontent hcontent') htext
      htext'

/-- **The command pass of a node ends alike**, if the passes of others do. -/
theorem echoes_commandPass :
    Echoes .answers (Kin document f) ((commandPass (handleCommands n) x).answer? c)
      ((commandPass (handleCommands m) x).answer? c') := by
  refine echoes_answers.2 fun {r c₂ r' c₂'} hgives hgives' => ?_
  obtain ⟨_, hd₀, hpass⟩ := gives_commandPass_cases h.first.parted hgives
  cases hd.symm.trans hd₀
  obtain ⟨_, hd₀, hpass'⟩ := gives_commandPass_cases h.second.parted hgives'
  cases hd'.symm.trans hd₀
  obtain ⟨_, hd₀, halike⟩ := h.written.definition? hd
  cases hd'.symm.trans hd₀
  have hk : d'.kind.unresolved = d.kind.unresolved := halike.kind_eq hne
  have hlies : ∀ {y}, c.Sees d.document y → f.Lies (· ≠ some document) y :=
    (compares n m).lies h hne
  rcases hpass with ⟨hreference, r₁, r₂, c₁, htext, hparts, rfl⟩ | ⟨reference, hreference, hway⟩
  · rcases hpass' with ⟨-, r₁', r₂', c₁', htext', hparts', rfl⟩ | ⟨reference', hreference', -⟩
    · obtain ⟨hr₁, hkin⟩ := h.texts_end hne hd hd' hf hh htext htext'
      rw [DefinitionKind.children_eq_of_unresolved_eq hk] at hparts'
      have hecho : Echoes .answers _ _ _ := .runAll (fun y hy {c c'} hR => hh y
        (hlies (h.first.parted.links hd (DefinitionKind.mem_links_of_child hy))) hR) hkin
      obtain ⟨hr₂, hkin⟩ := echoes_answers.1 hecho hparts hparts'
      rw [hr₁, hr₂]
      exact ⟨rfl, hkin⟩
    · obtain ⟨_, hreference₀, -⟩ :=
        DefinitionKind.reference_of_unresolved_eq hk.symm hreference'
      exact absurd hreference₀ (hreference _)
  · obtain ⟨reference', hreference', hkey⟩ :=
      DefinitionKind.reference_of_unresolved_eq hk hreference
    rcases hpass' with ⟨hreference₀, -⟩ | ⟨reference'', hreference'', hway'⟩
    · exact absurd hreference' (hreference₀ _)
    cases hreference'.symm.trans hreference''
    rw [hkey, halike.document_eq, h.written.lookup?] at hway'
    rcases hway with ⟨t, c₁, hl, haims, ht⟩ | ⟨hl, -, rfl, rfl⟩ <;>
      rcases hway' with ⟨t', c₁', hl', haims', ht'⟩ | ⟨hl', -, rfl, rfl⟩
    · cases hl.symm.trans hl'
      exact echoes_answers.1 (hh t (hlies (h.first.parted.lookup? hl))
        (h.aims hne hd hd' hf haims haims')) ht ht'
    · cases hl.symm.trans hl'
    · cases hl.symm.trans hl'
    · exact ⟨rfl, h⟩

end

/-- **Command passes elsewhere end alike in both contexts**, if they end. -/
theorem echoes_handleCommands (hf : f.IsSaturated) (hx : f.Lies (· ≠ some document) x) (n m : Nat) :
    Echoes .answers (Kin document f) ((handleCommands n x).answer? c)
      ((handleCommands m x).answer? c') := by
  induction n generalizing m x c c' with
  | zero => exact echoes_none _
  | succ n ih =>
    rcases m with _ | m
    · exact fun _ _ _ => Or.inr (Or.inr rfl)
    rw [handleCommands, handleCommands]
    refine .definition_bind fun d hd => ?_
    obtain ⟨d', hd', halike⟩ := h.written.definition? hd
    refine ⟨d', hd', ?_⟩
    rw [halike.key_eq]
    obtain ⟨_, hd₀, hne⟩ := hx.of_writtenAlike h.first.written
    cases hd.symm.trans hd₀
    have hunlimited : ∀ {c : Context}, c.IsParted → c.refusal? = none := fun hc => by
      rw [refusal?, hc.unlimited]
      rfl
    refine .nested (S := Kin document f) (fun limit hrefused => ?_)
      (fun _ => Or.inl (hunlimited h.second.parted)) (fun _ _ => ?_) fun hR => hR.atDepth _ _
    · rw [hunlimited h.first.parted] at hrefused
      cases hrefused
    · exact (h.atDepth (c.depth + 1) (c'.depth + 1)).echoes_commandPass hne hd hd' hf
        fun y hy {c c'} hR => ih hR hy m

end Kin

/-! ## Texts -/

/-- Near `f`, the shared targets that part references have got are level. -/
structure Settles (document : DocumentId) (f c : Context) : Prop extends Nears document f c where
  level : ∀ {x d reference t}, c.definition? x = some d → d.kind = .partReference reference →
    reference.target = some t → f.Lies (· = none) t → f.Level c t

/-- Passes leave targets level. -/
theorem Settles.passes (h : Settles document f c) (hf : f.IsParted)
    (hpasses : PassesIn document f s c c') : Settles document f c' where
  toNears := hpasses.nears
  level {x d' reference t} hd' hk ht hloose := by
    rcases hpasses.aims hd' hk ht hloose with hlevel | ⟨d, hd, he⟩
    · exact hlevel
    · exact hpasses.level hf hloose (h.level hd (he.trans hk) ht hloose)

/-- A text of another document reads the same in both contexts: it is the same, or shared and level,
    or resolved. -/
inductive Tallies (document : DocumentId) (f c c' : Context) (x : DefinitionId) : Prop
  | own : c.Lies (fun d => d ≠ none ∧ d ≠ some document) x → Tallies document f c c' x
  | level : f.Lies (· = none) x → f.Level c x → f.Level c' x → Tallies document f c c' x
  | resolved : c.Lies (· ≠ some document) x → c.Resolved x → c'.Resolved x →
      Tallies document f c c' x

namespace Kin

variable (h : Kin document f c c')
include h

/-- What commands of a text stand for is resolved wherever the text is handled. -/
theorem tallies_target (hd : c.definition? x = some d) (hd' : c'.definition? x = some d')
    (hne : d.document ≠ some document) (hk : d'.kind = d.kind) (hy : y ∈ d.kind.targets) :
    Tallies document f c c' y :=
  .resolved (((h.first.parted.encloses hd).targets y hy).lies (P := (· ≠ some document))
      (Option.some_ne_none document).symm hne)
    (h.first.parted.sound.targets hd y hy).1 (h.second.parted.sound.targets hd' y (hk ▸ hy)).1

/-- Such a definition holds the same in both contexts, and all that it leads to is such, too. -/
theorem tallies (hf : f.IsParted) (hs : Settles document f c) (hs' : Settles document f c')
    (hx : Tallies document f c c' x) (hd : c.definition? x = some d) :
    ∃ d', c'.definition? x = some d' ∧ d'.kind = d.kind ∧
      ∀ y ∈ d.kind.links, Tallies document f c c' y := by
  obtain ⟨d', hd', halike⟩ := h.written.definition? hd
  refine ⟨d', hd', ?_⟩
  cases hx with
  | own hx =>
    obtain ⟨_, hd₀, hnone, hne⟩ := hx
    cases hd.symm.trans hd₀
    have hk := h.kind hd hd' hnone hne
    refine ⟨hk, fun y hy => ?_⟩
    rcases DefinitionKind.mem_links.1 hy with ht | hchild | ht
    · exact h.tallies_target hd hd' hne hk ht
    · obtain ⟨e, he, hdocument⟩ := (h.first.parted.encloses hd).children y hchild
      exact .own ⟨e, he, hdocument ▸ hnone, hdocument ▸ hne⟩
    · obtain ⟨reference, hreference, ht⟩ := DefinitionKind.target?_eq_some.1 ht
      obtain ⟨e, he, hdocument⟩ := h.first.parted.links hd hy
      rcases hdocument with hdocument | hloose
      · exact .own ⟨e, he, hdocument ▸ hnone, hdocument ▸ hne⟩
      · have hlies : f.Lies (· = none) y :=
          Lies.of_writtenAlike ⟨e, he, hloose⟩ h.first.written.symm
        exact .level hlies (hs.level hd hreference ht hlies)
          (hs'.level hd' (hk.trans hreference) ht hlies)
  | level hx hlevel hlevel' =>
    obtain ⟨e, he, hnone⟩ := id hx
    have hkind := (sameAt_iff hd he).1 (hlevel x .refl)
    have hk : d'.kind = d.kind := ((sameAt_iff hd' he).1 (hlevel' x .refl)).trans hkind.symm
    obtain ⟨_, hd₀, hloose⟩ := hx.of_writtenAlike h.first.written
    cases hd.symm.trans hd₀
    refine ⟨hk, fun y hy => ?_⟩
    by_cases hpart : f.PassesTo x y
    · exact .level (hf.lies_of_passesTo hx hpart) (fun z hz => hlevel z (.head hpart hz))
        fun z hz => hlevel' z (.head hpart hz)
    · refine h.tallies_target hd hd' (hloose ▸ (Option.some_ne_none document).symm) hk
        ((DefinitionKind.mem_links.1 hy).resolve_right fun hpart' => hpart ⟨e, he, ?_⟩)
      rwa [← hkind, DefinitionKind.parts, List.mem_append, Option.mem_toList]
  | resolved hx hr hr' =>
    obtain ⟨_, hd₀, hne⟩ := hx
    cases hd.symm.trans hd₀
    obtain ⟨_, hd₀, hresolved, hlinks⟩ := resolved_iff.1 hr
    cases hd.symm.trans hd₀
    obtain ⟨_, hd₀, hresolved', hlinks'⟩ := resolved_iff.1 hr'
    cases hd'.symm.trans hd₀
    have hk := h.matches.kind hd hd' hne hresolved hresolved'
    exact ⟨hk, fun y hy => .resolved ((h.first.parted.links hd hy).lies
      (Option.some_ne_none document).symm hne) (hlinks y hy) (hlinks' y (hk ▸ hy))⟩

/-- **Texts of other documents read the same in both contexts.** -/
theorem segments? (hf : f.IsParted) (hs : Settles document f c) (hs' : Settles document f c')
    (hx : c.Lies (fun d => d ≠ none ∧ d ≠ some document) x) : c'.segments? x = c.segments? x := by
  have hround : ∀ g {x}, Tallies document f c c' x → c'.segmentsOver g x = c.segmentsOver g x := by
    intro g x hx
    rw [segmentsOver, segmentsOver, h.written.effectiveTags?]
    rcases hd : c.definition? x with _ | d
    · rw [h.written.definition?_none hd]
    · obtain ⟨d', hd', hk, -⟩ := h.tallies hf hs hs' hx hd
      rw [hd', Option.bind_some, Option.bind_some, hk]
  rw [Context.segments?, Context.segments?, h.written.size_eq]
  refine segmentsWithin_eq (fun hx hd y hy => ?_) hround _ (.own hx)
  obtain ⟨-, -, -, hlinks⟩ := h.tallies hf hs hs' hx hd
  exact hlinks y (DefinitionKind.mem_links_of_shown hy)

end Kin

/-! ## Built contexts -/

/-- Where nothing is resolved, definitions are as they were written. -/
theorem IsFresh.unresolved_kind (h : c.IsFresh) (hd : c.definition? x = some d) :
    d.kind.unresolved = d.kind := by
  rcases hcontents : d.kind.contents with _ | ⟨content, _⟩
  · exact DefinitionKind.unresolved_eq_self hcontents (h.target hd)
  · have hcontent : content ∈ d.kind.contents := by simp [hcontents]
    exact ((DefinitionKind.eq_unresolved_iff hcontent).2 (h.contents hd content hcontent)).symm

/-- There is nothing to settle where nothing is resolved. -/
theorem Settles.of_fresh (hc : c.IsParted) (hfresh : c.IsFresh) (h : WrittenAlike document f c) :
    Settles document f c where
  parted := hc
  written := h
  kind {x d e} hd he hnone := by
    obtain ⟨_, hd₀, halike⟩ := h.definition? he
    cases hd.symm.trans hd₀
    have hk : d.kind.unresolved = e.kind.unresolved := halike.kind_eq (by
      rw [← halike.document_eq, hnone]
      exact (Option.some_ne_none document).symm)
    exact Or.inr ((hfresh.unresolved_kind hd).symm.trans hk)
  level {x d reference t} hd hk ht := by
    have hnone := hfresh.target hd
    rw [hk, DefinitionKind.target?, ht] at hnone
    cases hnone

/-- Nothing is granted where nothing is resolved. -/
theorem IsGranted.of_fresh (hc : c.IsParted) (hfresh : c.IsFresh) : c.IsGranted where
  parted := hc
  handled hd _ hcontent hhandled := absurd (hfresh.contents hd _ hcontent) hhandled

/-- Contexts that are built alike are kin, near a context in which shared definitions are what
    becomes of them. -/
theorem BuiltAlike.exists_kin {E : Context → Edit → Prop} (h : BuiltAlike E document c c')
    (hE : ∀ c e, E c e → e.Applies c) (hc : c.IsParted) (hc' : c'.IsParted) :
    ∃ f : Context, f.IsSaturated ∧ Kin document f c c' ∧ Settles document f c ∧
      Settles document f c' := by
  have hfresh := (h.isBuilt hE).1.isFresh
  have hfresh' := (h.isBuilt hE).2.isFresh
  obtain ⟨f, hf, hwritten⟩ := (IsGranted.of_fresh hc hfresh).exists_saturated
  have hfirst : WrittenAlike document f c := .of_unresolved_eq hwritten.symm
  have hs : Settles document f c := .of_fresh hc hfresh hfirst
  have hs' : Settles document f c' := .of_fresh hc' hfresh' (hfirst.trans h.writtenAlike)
  refine ⟨f, hf, ⟨hs.toNears, hs'.toNears, fun {x d d'} hd hd' _ hne => ?_, fun _ =>
    h.footnoteList_eq _⟩, hs, hs'⟩
  obtain ⟨_, hd₀, halike⟩ := h.writtenAlike.definition? hd
  cases hd'.symm.trans hd₀
  rw [← hfresh.unresolved_kind hd, ← hfresh'.unresolved_kind hd', halike.kind_eq hne]

/-! ## Calls -/

/-- The command passes of the nodes, asked for in this order, end with the results. -/
inductive HandlesAll : Context → List DefinitionId → List (Except Error Unit) → Context → Prop
  | nil (c : Context) : HandlesAll c [] [] c
  | cons {c c₁ c₂ : Context} {id : DefinitionId} {ids : List DefinitionId} {r : Except Error Unit}
      {rs : List (Except Error Unit)} : (Call.commands id).Ends c r c₁ → HandlesAll c₁ ids rs c₂ →
      HandlesAll c (id :: ids) (r :: rs) c₂

/-- **One call in both contexts.** -/
theorem Kin.ends {r r' : Except Error Unit} (h : Kin document f c c') (hf : f.IsSaturated)
    (hs : Settles document f c) (hs' : Settles document f c')
    (hends : (Call.commands x).Ends c r c₁) (hends' : (Call.commands x).Ends c' r' c₁') :
    Kin document f c₁ c₁' ∧ Settles document f c₁ ∧ Settles document f c₁' ∧
      (f.Lies (· ≠ some document) x → r' = r) := by
  obtain ⟨n, hn⟩ := hends
  obtain ⟨m, hm⟩ := hends'
  rw [Call.pass] at hn hm
  obtain ⟨e, he⟩ : ∃ e, f.definition? x = some e := by
    rcases n with _ | n
    · exact (gives_endless.1 hn).elim
    · rw [handleCommands, gives_definition_bind] at hn
      obtain ⟨d, hd, -⟩ := hn
      obtain ⟨e, he, -⟩ := h.first.written.symm.definition? hd
      exact ⟨e, he⟩
  have hsees : f.Sees e.document x := ⟨e, he, Or.inl rfl⟩
  have hpasses := (serves_handleCommands hf n).works hsees h.first hn
  have hpasses' := (serves_handleCommands hf m).works hsees h.second hm
  have hsettles := hs.passes hf.parted hpasses
  have hsettles' := hs'.passes hf.parted hpasses'
  by_cases hne : e.document = some document
  · refine ⟨h.of_works (Or.inr hne) hpasses.toWorksIn hpasses'.toWorksIn, hsettles, hsettles',
      fun hx => ?_⟩
    obtain ⟨_, he', hx⟩ := hx
    cases he.symm.trans he'
    exact absurd hne hx
  · obtain ⟨hr, hkin⟩ := echoes_answers.1 (h.echoes_handleCommands hf ⟨e, he, hne⟩ n m) hn hm
    exact ⟨hkin, hsettles, hsettles', fun _ => hr⟩

/-- **All calls in both contexts.** -/
theorem Kin.handlesAll {ids : List DefinitionId} {rs rs' : List (Except Error Unit)}
    (h : Kin document f c c') (hf : f.IsSaturated) (hs : Settles document f c)
    (hs' : Settles document f c') (hrun : c.HandlesAll ids rs c₁)
    (hrun' : c'.HandlesAll ids rs' c₁') :
    Kin document f c₁ c₁' ∧ Settles document f c₁ ∧ Settles document f c₁' ∧
      ∀ p ∈ ids.zip (rs.zip rs'), f.Lies (· ≠ some document) p.1 → p.2.2 = p.2.1 := by
  induction hrun generalizing c' rs' with
  | nil c =>
    cases hrun'
    exact ⟨h, hs, hs', by simp⟩
  | cons hends _ ih =>
    cases hrun' with
    | cons hends' hrun' =>
      obtain ⟨hkin, hsettles, hsettles', hr⟩ := h.ends hf hs hs' hends hends'
      obtain ⟨hkin, hsettles, hsettles', hrs⟩ := ih hkin hsettles hsettles' hrun'
      refine ⟨hkin, hsettles, hsettles', ?_⟩
      simp only [List.zip_cons_cons, List.mem_cons, forall_eq_or_imp]
      exact ⟨hr, hrs⟩

end Context

/-- The edit applies, and a document that it names is one of the context. -/
def Edit.Builds (c : Context) (e : Edit) : Prop :=
  e.Applies c ∧ e.FindsDocument c

instance (c : Context) (e : Edit) : Decidable (e.Builds c) :=
  inferInstanceAs (Decidable (e.Applies c ∧ e.FindsDocument c))

/-- **Documents do not interfere.**  Two contexts are built alike but for source texts of one
    document; there is no depth limit, no text makes truth values, and no text outside of documents
    has a footnote.  The same command passes are asked for, and end, in both.  Then those of nodes
    of another document end the same, and in the end its nodes have the same texts, and its
    footnotes are the same, under the same numbers.  Definitions that are added by hand are not
    resolved, and if they are copies of sections, they have no parts but in the document that they
    come into (`Edit.Applies`): what has parts in the one document shows their texts. -/
theorem noninterference {a : DocumentId} (ha : a ≠ document)
    (hbuilt : BuiltAlike Edit.Builds document c c') (hunlimited : c.settings.depthLimit = none)
    (hbooleans : c.Uses (· ≠ .boolean)) (hbooleans' : c'.Uses (· ≠ .boolean))
    (hbare : c.LooseTextsAreBare) {ids : List DefinitionId} {rs rs' : List (Except Error Unit)}
    (hrun : c.HandlesAll ids rs c₁) (hrun' : c'.HandlesAll ids rs' c₁') :
    (∀ p ∈ ids.zip (rs.zip rs'), c.Lies (· = some a) p.1 → p.2.2 = p.2.1) ∧
      (∀ x, c.Lies (· = some a) x → c₁'.text? x = c₁.text? x) ∧
      c₁'.footnotes (some a) = c₁.footnotes (some a) := by
  have hwritten := hbuilt.writtenAlike
  obtain ⟨hbuiltFirst, hbuiltSecond⟩ := hbuilt.isBuilt fun _ _ he => he.1
  obtain ⟨hreached, hreached'⟩ := hbuilt.reached
  have hc : c.IsParted :=
    .of_built hbuiltFirst (Reached.isIndexed (fun _ _ he => he.2) hreached) hunlimited hbooleans
      hbare
  have hc' : c'.IsParted :=
    .of_built hbuiltSecond (Reached.isIndexed (fun _ _ he => he.2) hreached')
      (hwritten.settings_eq ▸ hunlimited) hbooleans' (hbare.of_writtenAlike hwritten)
  obtain ⟨f, hf, hkin, hs, hs'⟩ := hbuilt.exists_kin (fun _ _ he => he.1) hc hc'
  have hother : ∀ {x}, c.Lies (· = some a) x → f.Lies (· = some a) x := fun hx =>
    hx.of_writtenAlike hkin.first.written.symm
  have hne : some a ≠ some document := fun he => ha (Option.some.inj he)
  obtain ⟨hkin₁, hs₁, hs₁', hrs⟩ := hkin.handlesAll hf hs hs' hrun hrun'
  refine ⟨fun p hp hx => hrs p hp ?_, fun x hx => ?_, ?_⟩
  · obtain ⟨e, he, hdocument⟩ := hother hx
    exact ⟨e, he, hdocument ▸ hne⟩
  · obtain ⟨d, hd, hdocument⟩ := (hother hx).of_writtenAlike hkin₁.first.written
    rw [text?, text?, hkin₁.segments? hf.parted hs₁ hs₁'
      ⟨d, hd, hdocument ▸ Option.some_ne_none a, hdocument ▸ hne⟩]
  · rw [footnotes, footnotes, hkin₁.lists ha]

/-- Two documents share a stanza, and another one that fails.  The one document inserts both in its
    text, or neither, and is handled first: it fails, or does not.  Of the other document, a stanza
    with a footnote and a stanza that fails end the same. -/
theorem noninterference_of_shared_failure :
    ∃ c c' c₁ c₁' : Context, ∃ failure e e' : Error, BuiltAlike Edit.Builds ⟨1⟩ c c' ∧
      c.HandlesAll [⟨6⟩, ⟨4⟩, ⟨5⟩] [.error failure, .ok (), .error e] c₁ ∧
      c'.HandlesAll [⟨6⟩, ⟨4⟩, ⟨5⟩] [.ok (), .ok (), .error e'] c₁' ∧ e' = e ∧
      c₁.text? ⟨4⟩ = some "x[1]" ∧ c₁'.text? ⟨4⟩ = c₁.text? ⟨4⟩ ∧
      (c₁.footnotes (some ⟨0⟩)).map Footnote.number = [1] ∧
      c₁'.footnotes (some ⟨0⟩) = c₁.footnotes (some ⟨0⟩) := by
  let edits := [Edit.addDocument "a" "A", .addVersion ⟨0⟩ (.ofKnown .coptic) none,
    .addDocument "b" "B", .addVersion ⟨1⟩ (.ofKnown .coptic) none,
    .addStandaloneStanza none (some "s") "x", .addStandaloneStanza none (some "t") "\\def\x7bu\x7d",
    .addStanza ⟨0⟩ none "\\def\x7bs\x7d\\footnote\x7by\x7d", .addStanza ⟨0⟩ none "\\def\x7bt\x7d"]
  let c := (Edit.addStanza ⟨1⟩ none "\\def\x7bs\x7d\\def\x7bt\x7d").apply
    (edits.foldl Edit.apply (.new {}))
  let c' := (Edit.addStanza ⟨1⟩ none "z").apply (edits.foldl Edit.apply (.new {}))
  have hplace : ∃ d ∈ (edits.foldl Edit.apply (.new {})).definition? ⟨1⟩,
      d.document = some ⟨1⟩ := by
    decide +kernel
  have hbuilt : BuiltAlike Edit.Builds ⟨1⟩ c c' :=
    ((BuiltAlike.new {}).edits (by decide +kernel) (by decide +kernel)).edit (by decide +kernel)
      (by decide +kernel) (.stanza _ _ hplace)
  let c₁ := (Call.commands ⟨6⟩).run 4 c
  let c₂ := (Call.commands ⟨4⟩).run 4 c₁
  let c₃ := (Call.commands ⟨5⟩).run 4 c₂
  let c₁' := (Call.commands ⟨6⟩).run 4 c'
  let c₂' := (Call.commands ⟨4⟩).run 4 c₁'
  let c₃' := (Call.commands ⟨5⟩).run 4 c₂'
  obtain ⟨failure, hfailure⟩ : ∃ e, (Call.commands ⟨6⟩).Ends c (.error e) c₁ :=
    Call.ends_run_error (by decide +kernel)
  have hends : (Call.commands ⟨4⟩).Ends c₁ (.ok ()) c₂ := Call.ends_run (by decide +kernel)
  obtain ⟨e, he⟩ : ∃ e, (Call.commands ⟨5⟩).Ends c₂ (.error e) c₃ :=
    Call.ends_run_error (by decide +kernel)
  have hrun : c.HandlesAll [⟨6⟩, ⟨4⟩, ⟨5⟩] [.error failure, .ok (), .error e] c₃ :=
    .cons hfailure (.cons hends (.cons he (.nil c₃)))
  have hbegins' : (Call.commands ⟨6⟩).Ends c' (.ok ()) c₁' := Call.ends_run (by decide +kernel)
  have hends' : (Call.commands ⟨4⟩).Ends c₁' (.ok ()) c₂' := Call.ends_run (by decide +kernel)
  obtain ⟨e', he'⟩ : ∃ e, (Call.commands ⟨5⟩).Ends c₂' (.error e) c₃' :=
    Call.ends_run_error (by decide +kernel)
  have hrun' : c'.HandlesAll [⟨6⟩, ⟨4⟩, ⟨5⟩] [.ok (), .ok (), .error e'] c₃' :=
    .cons hbegins' (.cons hends' (.cons he' (.nil c₃')))
  have hstanza : ∃ d ∈ c.definition? ⟨4⟩, d.document = some ⟨0⟩ := by decide +kernel
  have hfailing : ∃ d ∈ c.definition? ⟨5⟩, d.document = some ⟨0⟩ := by decide +kernel
  obtain ⟨hresults, htexts, hfootnotes⟩ := noninterference (by decide : (⟨0⟩ : DocumentId) ≠ ⟨1⟩)
    hbuilt (by decide +kernel) (by decide +kernel) (by decide +kernel) (by decide +kernel) hrun
    hrun'
  have hresult := hresults (⟨5⟩, .error e, .error e') (by simp) hfailing
  exact ⟨c, c', c₃, c₃', failure, e, e', hbuilt, hrun, hrun', Except.error.inj hresult,
    by decide +kernel, htexts ⟨4⟩ hstanza, by decide +kernel, hfootnotes⟩

/-- A copy of a section of the one document is added to the other one: it has a part in the one
    document, and reads as that does. -/
theorem not_noninterference_of_copy :
    ∃ c c' c₁ c₁' : Context, ∃ d, c.definition? ⟨1⟩ = some d ∧ d.document = some ⟨1⟩ ∧
      BuiltAlike (fun c e => e.FindsParent c ∧ e.FindsDocument c) ⟨1⟩ c c' ∧
      c.definition? ⟨3⟩ = some { d with document := some ⟨0⟩ } ∧
      c.settings.depthLimit = none ∧ c.Uses (· ≠ .boolean) ∧ c'.Uses (· ≠ .boolean) ∧
      c.LooseTextsAreBare ∧ c.HandlesAll [⟨3⟩] [.ok ()] c₁ ∧ c'.HandlesAll [⟨3⟩] [.ok ()] c₁' ∧
      c₁.text? ⟨3⟩ = some "x" ∧ c₁'.text? ⟨3⟩ = some "y" := by
  let edits := [Edit.addDocument "a" "A", .addDocument "b" "B",
    .addVersion ⟨1⟩ (.ofKnown .coptic) none, .addSection ⟨0⟩ none none]
  let d : Definition :=
    { parent := some ⟨0⟩, document := some ⟨1⟩, kind := .section { children := [⟨2⟩] } }
  let c₀ := edits.foldl Edit.apply (.new {})
  let c := (Edit.addDefinition d (some ⟨0⟩)).apply ((Edit.addStanza ⟨1⟩ none "x").apply c₀)
  let c' := (Edit.addDefinition d (some ⟨0⟩)).apply ((Edit.addStanza ⟨1⟩ none "y").apply c₀)
  have hplace : ∃ d ∈ c₀.definition? ⟨1⟩, d.document = some ⟨1⟩ := by decide +kernel
  have hbuilt : BuiltAlike (fun c e => e.FindsParent c ∧ e.FindsDocument c) ⟨1⟩ c c' :=
    (((BuiltAlike.new {}).edits (by decide +kernel) (by decide +kernel)).edit (by decide +kernel)
      (by decide +kernel) (.stanza "x" "y" hplace)).edit (by decide +kernel) (by decide +kernel)
      (.same _)
  exact ⟨c, c', _, _, d, rfl, rfl, hbuilt, rfl, rfl, by decide +kernel, by decide +kernel,
    by decide +kernel, .cons (Call.ends_run (n := 4) (by decide +kernel)) (.nil _),
    .cons (Call.ends_run (n := 4) (by decide +kernel)) (.nil _), by decide +kernel,
    by decide +kernel⟩

end Rubric
