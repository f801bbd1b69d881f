/-
  Rubric — contexts that match in some documents.

  Contexts that were written alike may differ in what has been resolved.  They match
  if the definitions that are resolved in both are so in the same way; then these
  read the same, and whatever reads nothing else does the same in both.

  * `Context.Matches document P c c'`: contexts that were written alike but for one
    document, and match in documents of which `P` holds;
    `Matches.segmentsWithin`: what is resolved in both reads the same;
  * `Compares`: runs side by side that keep contexts matched;
    **`Compares.echoes_resolveSource`**: a source is resolved alike in both.
-/
import Rubric.Proofs.Digest
import Rubric.Proofs.Parted
import Rubric.Proofs.Redaction

namespace Rubric

open Context Engine

variable {document : DocumentId} {P : Option DocumentId → Prop} {f c c' c₁ c₁' : Context}
  {x y : DefinitionId}

namespace Context

/-! ## Texts -/

theorem segments?_of_core_eq (he : c'.core = c.core) (x : DefinitionId) :
    c'.segments? x = c.segments? x := by
  have hround : ∀ f x, c'.segmentsOver f x = c.segmentsOver f x := by
    intro f x
    rw [segmentsOver, segmentsOver, effectiveTags?_of_unresolved_eq (unresolved_of_core_eq he)]
    rcases hd : c.definition? x with _ | d
    · rcases hd' : c'.definition? x with _ | d'
      · rfl
      · obtain ⟨references, hd''⟩ := definition?_of_core_eq he.symm hd'
        cases hd.symm.trans hd''
    · obtain ⟨references, hd'⟩ := definition?_of_core_eq he hd
      rw [hd']
      rfl
  rw [segments?, segments?, size_of_unresolved_eq (unresolved_of_core_eq he)]
  exact segmentsWithin_eq (S := fun _ => True) (fun _ _ _ _ => trivial)
    (fun f {x} _ => hround f x) _ trivial

/-! ## Where definitions lie -/

theorem Lies.of_writtenAlike (hx : c.Lies P x) (h : WrittenAlike document c c') : c'.Lies P x := by
  obtain ⟨d, hd, hP⟩ := hx
  obtain ⟨d', hd', he⟩ := h.definition? hd
  exact ⟨d', hd', he.document_eq ▸ hP⟩

theorem Sees.lies {d : Option DocumentId} (h : c.Sees d x) (hnone : P none) (hd : P d) :
    c.Lies P x := by
  obtain ⟨d', hd', hdocument⟩ := h
  refine ⟨d', hd', ?_⟩
  rcases hdocument with he | he <;> rw [he]
  · exact hd
  · exact hnone

/-! ## Matching contexts -/

/-- The contexts were written alike but for one document.  Definitions that lie in documents of
    which `P` holds are the same where both are resolved. -/
structure Matches (document : DocumentId) (P : Option DocumentId → Prop) (c c' : Context) :
    Prop where
  first : c.IsParted
  second : c'.IsParted
  written : WrittenAlike document c c'
  kind : ∀ {x d d'}, c.definition? x = some d → c'.definition? x = some d' → P d.document →
    d.kind.IsResolved → d'.kind.IsResolved → d'.kind = d.kind

namespace Matches

variable (h : Matches document P c c') (hnone : P none)
include h hnone

/-- **What is resolved in both contexts reads the same in both.** -/
theorem segmentsWithin (n : Nat) (hx : c.Lies P x) (hr : c.Resolved x) (hr' : c'.Resolved x) :
    c'.segmentsWithin n x = c.segmentsWithin n x := by
  have hkind : ∀ {x d}, c.Lies P x → c.Resolved x → c'.Resolved x → c.definition? x = some d →
      ∃ d', c'.definition? x = some d' ∧ d'.kind = d.kind ∧
        ∀ y ∈ d.kind.links, c.Lies P y ∧ c.Resolved y ∧ c'.Resolved y := by
    rintro x d ⟨d₁, hd₁, hP⟩ hr hr' hd
    obtain ⟨d₂, hd₂, hk, hlinks⟩ := resolved_iff.1 hr
    obtain ⟨d', hd', hk', hlinks'⟩ := resolved_iff.1 hr'
    cases hd₁.symm.trans hd
    cases hd₂.symm.trans hd
    have he := h.kind hd hd' hP hk hk'
    exact ⟨d', hd', he, fun y hy => ⟨(h.first.links hd hy).lies hnone hP, hlinks y hy,
      hlinks' y (he ▸ hy)⟩⟩
  refine segmentsWithin_eq (S := fun x => c.Lies P x ∧ c.Resolved x ∧ c'.Resolved x) ?_ ?_ n
    ⟨hx, hr, hr'⟩
  · intro x d ⟨hx, hr, hr'⟩ hd y hy
    obtain ⟨_, -, -, hlinks⟩ := hkind hx hr hr' hd
    exact hlinks y (DefinitionKind.mem_links_of_shown hy)
  · intro f x ⟨hx, hr, hr'⟩
    obtain ⟨d, hd, -⟩ := id hx
    obtain ⟨d', hd', he, -⟩ := hkind hx hr hr' hd
    rw [segmentsOver, segmentsOver, hd, hd', h.written.effectiveTags?, Option.bind_some,
      Option.bind_some, he]

theorem segments? (hx : c.Lies P x) (hr : c.Resolved x) (hr' : c'.Resolved x) :
    c'.segments? x = c.segments? x := by
  rw [Context.segments?, Context.segments?, h.written.size_eq]
  exact h.segmentsWithin hnone _ hx hr hr'

end Matches

/-- The definitions that show in the inline read the same in both contexts. -/
def ReadsAlike (c c' : Context) (p : Inline) : Prop :=
  ∀ t ∈ Inline.shownTargets [p], c'.segments? t = c.segments? t

theorem ReadsAlike.inlineSegments? {p : Inline} (h : c.ReadsAlike c' p) (tags : Tags) :
    c'.inlineSegments? tags p = c.inlineSegments? tags p := by
  have hsegments := Inline.segments_congr Segment.merges_id p tags fun t ht =>
    congrArg (Option.map id) (h t ht)
  rwa [Option.map_id, id, id] at hsegments

end Context

/-- What a command reads as it renders stands for what its document sees. -/
theorem Engine.KeepsParted.reads {handle : DefinitionId → Engine Unit} (hh : KeepsParted handle)
    {call : Invocation} {kind : CommandKind} {ps : List Inline} {p : Inline}
    (hfresh : ∀ p ∈ ps, p.IsFresh)
    (hu : ∀ p ∈ ps, p.Uses (CommandKind.StaysIn call.scope.document)) (hc : c.IsParted)
    (h : call.Reads handle kind ps c p c₁) :
    ∀ t ∈ Inline.targets [p], c₁.Sees call.scope.document t ∧ c₁.Resolved t := by
  cases h with
  | parameter _ hps hp =>
    intro t ht
    obtain ⟨i, hi, hti⟩ := Inline.mem_targets_iff.1 ht
    obtain rfl := List.mem_singleton.1 hi
    have hmem := Inline.mem_targets_iff.2 ⟨i, kind.plain_subset _ hp, hti⟩
    exact hh.executeList hfresh hu hc hps t hmem
  | condition hp => exact hh.execute (hfresh _ (by simp)) (hu _ (by simp)) hc hp
  | tag hp => exact hh.execute (hfresh _ (by simp)) (hu _ (by simp)) hc hp

/-! ## Runs side by side -/

/-- The passes of `handle` and `handle'` keep documents apart, and `R` joins contexts that match in
    documents of which `P` holds, and stays between them whatever commands in such documents do.
    What was written in the contexts was written in `f`. -/
structure Compares (document : DocumentId) (P : Option DocumentId → Prop) (f : Context)
    (handle handle' : DefinitionId → Engine Unit) (R : Context → Context → Prop) : Prop where
  loose : P none
  first : KeepsParted handle
  second : KeepsParted handle'
  alike : ∀ {c c'}, R c c' → Matches document P c c'
  written : ∀ {c c'}, R c c' → WrittenAlike document f c
  warn : ∀ {c c'}, R c c' → ∀ warnings, R (c.warnAll warnings) (c'.warnAll warnings)
  reference : ∀ {c c'}, R c c' → ∀ definition user,
    R (c.addReference definition user) (c'.addReference definition user)
  counter : ∀ {c c' d}, P d → d ≠ none → R c c' →
    (c'.footnoteList d).counter = (c.footnoteList d).counter
  number : ∀ {c c' d}, P d → d ≠ none → R c c' →
    R (c.modifyFootnotes d fun list => { list with counter := list.counter + 1 })
      (c'.modifyFootnotes d fun list => { list with counter := list.counter + 1 })
  route : ∀ {c c' d}, P d → R c c' → ∀ notes,
    R (c.routeFootnotes d notes) (c'.routeFootnotes d notes)

namespace Compares

variable {handle handle' : DefinitionId → Engine Unit} {R : Context → Context → Prop}
  {rigor : Rigor} (h : Compares document P f handle handle' R)
include h

/-- What the document of a text sees lies where the contexts match. -/
theorem lies {d : Option DocumentId} (hR : R c c') (hd : P d) (hy : c.Sees d y) : f.Lies P y :=
  (hy.lies h.loose hd).of_writtenAlike (h.written hR).symm

/-- Inlines that are executed in both contexts read alike. -/
theorem readsAlike {d : Option DocumentId} {l : List Inline} (hR : R c c') (hd : P d)
    (hl : ∀ t ∈ Inline.targets l, c.Sees d t ∧ c.Resolved t)
    (hl' : ∀ t ∈ Inline.targets l, c'.Sees d t ∧ c'.Resolved t) : ∀ p ∈ l, c.ReadsAlike c' p := by
  intro p hp t ht
  have ht := Inline.mem_targets_iff.2 ⟨p, hp, Inline.targets_of_shownTargets ht⟩
  exact (h.alike hR).segments? h.loose ((hl t ht).1.lies h.loose hd) (hl t ht).2 (hl' t ht).2

/-- Contexts that match concur in what commands look at. -/
theorem concurs : Concurs handle handle' (fun y _ _ => f.Lies P y)
    (fun scope _ l _ _ => P scope.document ∧
      ∀ i ∈ l, i.IsFresh ∧ i.Uses (CommandKind.StaysIn scope.document))
    (fun scope kind => P scope.document ∧ kind.StaysIn scope.document) ReadsAlike ReadsAlike R where
  lookup? hR := (h.alike hR).written.lookup?
  analyzers hR := (h.alike hR).written.analyzers_eq
  equivalence hR := by rw [(h.alike hR).written.settings_eq]
  lineSeparator hR := by rw [(h.alike hR).written.settings_eq]
  syllableSeparator hR := by rw [(h.alike hR).written.settings_eq]
  definition hR hd := by
    obtain ⟨d', hd', he⟩ := (h.alike hR).written.definition? hd
    exact ⟨d', hd', he.poses⟩
  absent hR hd := (h.alike hR).written.definition?_none hd
  text _ hp hs := by
    rw [inlineText?, hp.inlineSegments?]
    exact hs
  readable_of_core hp he he' t ht := by
    rw [segments?_of_core_eq he, segments?_of_core_eq he']
    exact hp t ht
  inlineSegments? {c c' tags p segments} hR hp hs := by
    have hfonts := (h.alike hR).written.fonts_eq
    refine ⟨segments, (hp.inlineSegments? tags).trans hs, by rw [hfonts], ?_⟩
    rw [hfonts]
    exact h.warn hR _
  segments? {c c' c₁ c₁' id segments} hid hR hhandled hhandled' hR₁ hs := by
    have hfonts := (h.alike hR₁).written.fonts_eq
    have hr := (h.first.resolves id _ _ _ (h.alike hR).first.sound hhandled).2.2 () rfl
    have hr' := (h.second.resolves id _ _ _ (h.alike hR).second.sound hhandled').2.2 () rfl
    have hx := hid.of_writtenAlike (h.written hR₁)
    refine ⟨segments, ((h.alike hR₁).segments? h.loose hx hr hr').trans hs, by rw [hfonts], ?_⟩
    rw [hfonts]
    exact h.warn hR₁ _
  reference hR := h.reference hR
  counter huses hR := h.counter huses.1 (fun hnone => huses.2.2 hnone rfl) hR
  number huses hR := h.number huses.1 (fun hnone => huses.2.2 hnone rfl) hR
  boolean huses := absurd rfl huses.2.1
  span hi := by
    obtain ⟨hfresh, hu⟩ := hi.2 _ (List.mem_cons_self ..)
    exact ⟨hi.1, fun j hj => ⟨(Inline.isFresh_span.1 hfresh).2 j hj, hu.of_span j hj⟩⟩
  later hi _ _ _ := ⟨hi.1, fun j hj => hi.2 j (List.mem_cons_of_mem _ hj)⟩
  executes hi he _ _ := by
    obtain ⟨hfresh, hu⟩ := hi.2 _ (List.mem_cons_self ..)
    exact ⟨hi.1, fun p hp => ⟨(Inline.isFresh_command.1 hfresh).2.2 p (he.subset hp),
      hu.of_command.2 p (he.subset hp)⟩⟩
  uses hi := ⟨hi.1, (hi.2 _ (List.mem_cons_self ..)).2.of_command.1⟩
  inserts {scope tags name kind ps own rest c c' c₁ c₁' y} hi _ hinserts _ hR₁ := by
    obtain ⟨ps', notes, c₂, _, hl, rfl⟩ := hinserts
    obtain ⟨key, hl⟩ := hl.handles.exists_key
    rw [← lookup?_addReference c₂ y scope.owner] at hl
    exact h.lies hR₁ hi.1 ((h.alike hR₁).first.lookup? hl)
  reads {scope tags name kind ps own rest p c c' c₁ c₁'} hi hR hp hp' hR₁ := by
    obtain ⟨hfresh, hu⟩ := hi.2 _ (List.mem_cons_self ..)
    replace hfresh := (Inline.isFresh_command.1 hfresh).2.2
    replace hu := hu.of_command.2
    exact h.readsAlike hR₁ hi.1 (h.first.reads hfresh hu (h.alike hR).first hp)
      (h.second.reads hfresh hu (h.alike hR).second hp') p (List.mem_singleton_self p)
  converts {scope tags name kind ps own rest ps' notes c c' c₁ c₁'} hi hR hps hps' hR₁ := by
    obtain ⟨hfresh, hu⟩ := hi.2 _ (List.mem_cons_self ..)
    replace hfresh := (Inline.isFresh_command.1 hfresh).2.2
    replace hu := hu.of_command.2
    exact h.readsAlike hR₁ hi.1 (h.first.executeList hfresh hu (h.alike hR).first hps)
      (h.second.executeList hfresh hu (h.alike hR).second hps')

/-- **A source is resolved alike in both contexts**, if the passes that its commands run do so. -/
theorem echoes_resolveSource (hh : ∀ y, f.Lies P y → ∀ {c c'}, R c c' →
      Echoes rigor R ((handle y).answer? c) ((handle' y).answer? c'))
    {d : Definition} {content : Content} (hd : c.definition? x = some d) (hP : P d.document)
    (hcontent : content ∈ d.kind.contents) (hR : R c c') :
    Echoes rigor R ((resolveSource handle x content.source).answer? c)
      ((resolveSource handle' x content.source).answer? c') := by
  have hwritten := (h.alike hR).written
  refine .get_bind ?_
  rw [hwritten.commands_eq, hwritten.effectiveTags?]
  refine (echoes_ofExcept _ hR).bind fun written c₁ c₁' hparse hR₁ => ?_
  obtain ⟨hparse, rfl⟩ := gives_ofExcept_ok.1 hparse
  refine (echoes_ofOption (fun _ ht => ht) hR₁).bind fun tags c₂ c₂' htags hR₂ => ?_
  obtain ⟨_, -, -, rfl⟩ := gives_ofOption.1 htags
  refine .definition_bind fun d₂ hd₂ => ?_
  cases hd.symm.trans hd₂
  obtain ⟨d', hd', he⟩ := (h.alike hR₂).written.definition? hd
  refine ⟨d', hd', ?_⟩
  rw [he.document_eq]
  have hadmits : P d.document ∧ ∀ i ∈ written,
      i.IsFresh ∧ i.Uses (CommandKind.StaysIn d.document) := ⟨hP, fun i hi =>
    ⟨Markup.isFresh_of_mem_parse hparse i hi, (h.alike hR).first.uses hd hcontent hparse i hi⟩⟩
  have hpasses : ∀ y {c c'}, f.Lies P y → R c c' →
      Echoes rigor R ((handle y).answer? c) ((handle' y).answer? c') :=
    fun y _ _ hy => hh y hy
  have hexecuted : Echoes rigor R
      ((Inline.executeList handle { owner := x, document := d.document } tags written).answer? c₂)
      ((Inline.executeList handle' { owner := x, document := d.document } tags written).answer?
        c₂') := h.concurs.echoes_executeList hpasses hadmits hR₂
  refine hexecuted.bind fun out _ _ _ hR => ?_
  exact (echoes_modify (h.route hP hR _)).bind fun _ _ _ _ hR => echoes_pure _ hR

/-- An unread text is handled alike, if what its source becomes may take its place in both. -/
theorem echoes_resolveContent (hh : ∀ y, f.Lies P y → ∀ {c c'}, R c c' →
      Echoes rigor R ((handle y).answer? c) ((handle' y).answer? c'))
    {d : Definition} {content : Content} (hd : c.definition? x = some d) (hP : P d.document)
    (hcontent : content ∈ d.kind.contents) (hunparsed : content.stage = .unparsed)
    (hok : ∀ {l c₁ c₁' c₂ c₂'}, R c₁ c₁' →
      c₂ = c₁.modifyContent x (fun content => content.resolveCommands l) →
      c₂' = c₁'.modifyContent x (fun content => content.resolveCommands l) →
      (resolveContent handle x content).Gives c (.ok ()) c₂ →
      (resolveContent handle' x content).Gives c' (.ok ()) c₂' → R c₂ c₂') (hR : R c c') :
    Echoes rigor R ((resolveContent handle x content).answer? c)
      ((resolveContent handle' x content).answer? c') := by
  unfold resolveContent
  rw [hunparsed]
  refine (h.echoes_resolveSource hh hd hP hcontent hR).bind_of_both fun l c₁ c₁' hl hl' hR₁ => ?_
  exact echoes_modify (hok hR₁ rfl rfl (gives_resolveContent_of_source hunparsed hl)
    (gives_resolveContent_of_source hunparsed hl'))

end Compares

end Rubric
