/-
  Rubric — what the font pass of a part reference leaves.

  The font pass goes from a part reference to its target, whatever that is.  A
  multilingual value has no text that could be converted, so the run that it
  shows keeps its font.

  * `Context.ShowsValue`: a segment that a value in the place of a part reference shows;
  * `Settled.segment_cases`: all else that a settled definition shows is in Unicode;
  * **`text_of_reference`**: the text of a part reference whose fonts are converted
    is its Unicode text, but for such values.
-/
import Rubric.Proofs.Routed
import Rubric.Proofs.Targets

namespace Rubric

open Context

variable {c₀ c c' : Context} {id p x t : DefinitionId} {events : List Event}

/-! ## Segments -/

/-- Whatever is in a list of results is the result of something. -/
theorem exists_of_mem_mapM {α β : Type} {l : List α} {f : α → Option β} {ys : List β} {y : β}
    (h : l.mapM f = some ys) (hy : y ∈ ys) : ∃ a ∈ l, f a = some y := by
  induction l generalizing ys with
  | nil =>
    cases h
    cases hy
  | cons a l ih =>
    obtain ⟨first, rest, hfirst, hrest, rfl⟩ := mapM_cons_eq_some.1 h
    rcases List.mem_cons.1 hy with rfl | hy
    · exact ⟨a, by simp, hfirst⟩
    · obtain ⟨b, hb, hfb⟩ := ih hrest hy
      exact ⟨b, by simp [hb], hfb⟩

/-- A segment of joined lines is one of a line, or a line feed. -/
theorem mem_intercalate {segment : Segment} {lines : List (List Segment)}
    (h : segment ∈ [{ text := "\n" }].intercalate lines) :
    segment = { text := "\n" } ∨ ∃ line ∈ lines, segment ∈ line := by
  obtain ⟨line, hline, hsegment⟩ := List.mem_flatten.1 h
  rcases mem_of_mem_intersperse hline with rfl | hline
  · exact Or.inl (List.mem_singleton.1 hsegment)
  · exact Or.inr ⟨line, hline, hsegment⟩

namespace Context

/-- The segment is what a multilingual value shows in the place of a part reference that is rendered
    with the definition. -/
def ShowsValue (c : Context) (id : DefinitionId) (segment : Segment) : Prop :=
  ∃ x t d runs, c.Renders id x ∧ c.target? x = some t ∧ c.definition? t = some d ∧
    d.kind = .multilingual runs ∧ segment ∈ valueSegments runs

theorem ShowsValue.of_shownLinks {d : Definition} {segment : Segment}
    (hd : c.definition? x = some d) (ht : t ∈ d.kind.shownLinks) (h : c.ShowsValue t segment) :
    c.ShowsValue x segment := by
  obtain ⟨y, t', d', runs, hrenders, h⟩ := h
  exact ⟨y, t', d', runs, .head ⟨d, hd, ht⟩ hrenders, h⟩

/-- A converted content shows Unicode text, besides what the definitions show that its commands
    stand for. -/
theorem IsFixed.forall_segments {P : Segment → Prop} {content : Content} {tags : Tags}
    {g : DefinitionId → Option (List Segment)} {s : List Segment} (hP : ∀ text, P { text })
    (h : c.IsFixed x content) (htags : c.effectiveTags? x = some tags)
    (hg : ∀ t ∈ Inline.shownTargets content.inlines, ∀ s, g t = some s → ∀ segment ∈ s, P segment)
    (hs : content.segments g tags = some s) : ∀ segment ∈ s, P segment := by
  obtain ⟨tags', htags', hremap⟩ := h.remap
  cases htags.symm.trans htags'
  have hspan : Inline.segments g tags (Inline.remap c.fonts tags (.span content.inlines .unset)) =
      some s := by
    rw [Inline.remap_span, Inline.segments_span, ← hs, Content.segments_eq]
    exact congrArg (Inline.segmentsList g tags)
      ((List.map_congr_left hremap).trans (List.map_id' _))
  refine Inline.forall_segments_remap hP (Or.inl rfl) (fun t ht => ?_) hspan
  rw [Inline.shownTargets_span] at ht
  exact hg t ht

/-- **What a settled definition shows is in Unicode, or a multilingual value shows it** in the place
    of a part reference. -/
theorem Settled.segment_cases (hs : c.IsSound) {n : Nat} {s : List Segment} (hx : c.Settled x)
    (hm : ¬ c.IsMultilingual x) (h : c.segmentsWithin n x = some s) :
    ∀ segment ∈ s, segment.font = none ∨ c.ShowsValue x segment := by
  induction n generalizing x s with
  | zero => cases h
  | succ n ih =>
    obtain ⟨hd, hconverted, hlinks⟩ := hx
    rename_i d
    rw [segmentsWithin_succ, hd, Option.bind_some] at h
    have hfixed := fun content hcontent =>
      hs.fixed hd content hcontent (hconverted.contents content hcontent)
    have hshown : ∀ y ∈ d.kind.shownLinks, ¬ c.IsMultilingual y → ∀ s,
        c.segmentsWithin n y = some s → ∀ segment ∈ s,
          segment.font = none ∨ c.ShowsValue x segment := fun y hy hm s h segment hsegment =>
      (ih (hlinks y (DefinitionKind.mem_links_of_shown hy)) hm h segment hsegment).imp_right
        fun hvalue => hvalue.of_shownLinks hd hy
    have hcontents : ∀ content ∈ d.kind.contents, ∀ tags s, c.effectiveTags? x = some tags →
        content.segments (c.segmentsWithin n) tags = some s → ∀ segment ∈ s,
          segment.font = none ∨ c.ShowsValue x segment := by
      intro content hcontent tags s htags hsegments
      refine (hfixed content hcontent).forall_segments (fun _ => Or.inl rfl) htags
        (fun t ht => ?_) hsegments
      refine hshown t ?_ (hs.targets hd t ?_).2
      · exact DefinitionKind.mem_shownLinks.2
          (Or.inl (DefinitionKind.mem_shownTargets_of_content hcontent ht))
      · exact DefinitionKind.mem_targets.2
          ⟨content, hcontent, Inline.targets_of_shownTargets ht⟩
    rcases hk : d.kind with body | content | content | reference | value | value | runs
    case «section» =>
      rw [hk] at h
      obtain ⟨tags, htags, h⟩ := Option.bind_eq_some_iff.1 h
      obtain ⟨title, htitle, h⟩ := Option.bind_eq_some_iff.1 h
      obtain ⟨children, hchildren, h⟩ := Option.bind_eq_some_iff.1 h
      cases h
      intro segment hsegment
      rcases mem_intercalate hsegment with rfl | ⟨line, hline, hsegment⟩
      · exact Or.inl rfl
      rcases List.mem_append.1 hline with hline | hline
      · obtain ⟨content, hcontent, hline⟩ := exists_of_mem_mapM htitle hline
        exact hcontents content (by rw [hk]; exact hcontent) tags line htags hline segment hsegment
      · obtain ⟨child, hchild, hline⟩ := exists_of_mem_mapM hchildren hline
        have hmem : child ∈ d.kind.children := by rw [hk]; exact hchild
        exact hshown child (DefinitionKind.mem_shownLinks.2 (Or.inr (Or.inl hmem)))
          (hs.children hd child hmem) line hline segment hsegment
    case stanza | paragraph =>
      rw [hk] at h
      obtain ⟨tags, htags, h⟩ := Option.bind_eq_some_iff.1 h
      exact hcontents content (by rw [hk]; simp [DefinitionKind.contents]) tags s htags h
    case partReference =>
      obtain ⟨t, ht⟩ := Option.isSome_iff_exists.1 (hconverted.aimed reference hk)
      have htarget : d.kind.target? = some t := by rw [hk]; exact ht
      replace h : c.segmentsWithin n t = some s := by rwa [hk, DefinitionKind.segments, ht] at h
      by_cases hvalue : c.IsMultilingual t
      · obtain ⟨d', hd', runs, hruns⟩ := hvalue
        intro segment hsegment
        rcases n with _ | n
        · cases h
        rw [segmentsWithin_succ, hd', Option.bind_some, hruns] at h
        cases h
        exact Or.inr ⟨x, t, d', runs, .refl, target?_eq_some.2 ⟨d, hd, htarget⟩, hd', hruns,
          hsegment⟩
      · exact hshown t (DefinitionKind.mem_shownLinks.2 (Or.inr (Or.inr htarget))) hvalue s h
    case boolean | integer =>
      rw [hk] at h
      cases h
      intro segment hsegment
      rw [List.mem_singleton.1 hsegment]
      exact Or.inl rfl
    case multilingual => exact absurd ⟨d, hd, runs, hk⟩ hm

end Context

/-! ## Part references -/

/-- **What is left in a font in the text of a part reference is what values show in the place of
    part references.**  Where the font pass of a part reference succeeds after any calls on a built
    context, it has a text, whatever it leads to, and each segment of that is in Unicode or shown
    by a multilingual value that a part reference stands for.  So its text is its Unicode text if
    no such value shows a run that its font would change.  What is added while the context is built
    finds its parent, and what is added by hand is not resolved and has no parts in other documents
    (`Edit.Applies`). -/
theorem text_of_reference (hbuilt : c₀.IsBuilt) (h : Session c₀ events c)
    (hcalls : ∀ e ∈ events, e.IsCall) {d : Definition} {reference : PartReference}
    (hd : c.definition? p = some d) (hk : d.kind = .partReference reference)
    (hfonts : (Call.fonts p).Ends c (.ok ()) c') :
    ∃ segments, c'.segments? p = some segments ∧
      (∀ segment ∈ segments, segment.font = none ∨ c'.ShowsValue p segment) ∧
      ((∀ segment, c'.ShowsValue p segment → c'.fonts.normalizeSegment segment = segment.text) →
        c'.text? p = c'.normalizedText? p) := by
  have hs := h.isSound hbuilt hcalls
  obtain ⟨depth, hends⟩ := hfonts
  obtain ⟨hs', hsteps, hsettled⟩ := secures_handleFonts depth p _ _ _ hs hends
  have hm : ¬ c'.IsMultilingual p := by
    refine hsteps.not_isMultilingual ?_
    rintro ⟨d', hd', runs, hruns⟩
    cases hd.symm.trans hd'
    rw [hk] at hruns
    cases hruns
  obtain ⟨n, segments, hn⟩ := (hsettled () rfl).segmentsWithin hs'
  have hsegments := segments?_of_within hn
  have hcases := (hsettled () rfl).segment_cases hs' hm hn
  refine ⟨segments, hsegments, hcases, fun hvalues => ?_⟩
  rw [text?, normalizedText?, hsegments, Option.map_some, Option.map_some, Segment.plain,
    FontRegistry.normalize]
  refine congrArg (fun texts => some (String.join texts)) (List.map_congr_left ?_)
  intro segment hsegment
  rcases hcases segment hsegment with hfont | hvalue
  · rw [FontRegistry.normalizeSegment, hfont]
  · exact (hvalues segment hvalue).symm

/-- A part reference to a stanza in a legacy font: once both passes have succeeded for it, its text
    is the Unicode text of the stanza. -/
theorem text_of_reference_to_stanza :
    ∃ c₀ c c' : Context, ∃ events d reference, c₀.IsBuilt ∧ Session c₀ events c ∧
      (∀ e ∈ events, e.IsCall) ∧ c.definition? ⟨2⟩ = some d ∧ d.kind = .partReference reference ∧
      (Call.fonts ⟨2⟩).Ends c (.ok ()) c' ∧ c.text? ⟨2⟩ = some "y" ∧
      c'.text? ⟨2⟩ = c'.normalizedText? ⟨2⟩ ∧ c'.normalizedText? ⟨2⟩ = some "ⲏ" := by
  let c₀ := [Edit.addDocument "d" "D", .addVersion ⟨0⟩ (.ofKnown .coptic) (some "CS Avva Shenouda"),
    .addStanza ⟨0⟩ (some "a") "y", .addPartReference ⟨0⟩ none "a"].foldl Edit.apply (.new {})
  let c := (Call.commands ⟨2⟩).run 3 c₀
  let c' := (Call.fonts ⟨2⟩).run 3 c
  have hbuilt : c₀.IsBuilt := (Context.isBuilt_new {}).edits (by decide +kernel)
  have h : Session c₀ ([] ++ [.call (.commands ⟨2⟩) (.ok ())]) c :=
    .call .start (Call.ends_run (by decide +kernel))
  have hcalls : ∀ e ∈ [] ++ [Event.call (.commands ⟨2⟩) (.ok ())], e.IsCall := by
    simp [Event.IsCall]
  obtain ⟨d, reference, hd, hk, -⟩ : ∃ d reference, c.definition? ⟨2⟩ = some d ∧
      d.kind = .partReference reference ∧ reference.target = some ⟨1⟩ :=
    target?_eq_some_reference.1 (by decide +kernel)
  have hends : (Call.fonts ⟨2⟩).Ends c (.ok ()) c' := Call.ends_run (by decide +kernel)
  have hnames : ∀ d ∈ c'.definitions.toList, d.kind.name ≠ "translations" := by decide +kernel
  obtain ⟨-, -, -, htext⟩ := text_of_reference hbuilt h hcalls hd hk hends
  refine ⟨c₀, c, c', _, d, reference, hbuilt, h, hcalls, hd, hk, hends, by decide +kernel,
    htext ?_, by decide +kernel⟩
  rintro segment ⟨_, _, d', runs, -, -, hd', hruns, -⟩
  exact absurd (by rw [hruns]; rfl) (hnames d' (Array.mem_toList_iff.2 (Array.mem_of_getElem? hd')))

/-- A part reference to a multilingual value with a run in a legacy font: both passes succeed for
    it, and its text stays in that font. -/
theorem legacy_text_of_value :
    ∃ c₀ c c' : Context, c₀.IsBuilt ∧ (Call.commands ⟨2⟩).Ends c₀ (.ok ()) c ∧
      (Call.fonts ⟨2⟩).Ends c (.ok ()) c' ∧ c'.text? ⟨2⟩ = some "y" ∧
      c'.normalizedText? ⟨2⟩ = some "ⲏ" := by
  let c₀ := [Edit.addDocument "d" "D", .addVersion ⟨0⟩ (.ofKnown .coptic) none,
    .addDefinition { key := some "m", kind := .multilingual (.ofList
        [{ text := "y", tags := { font := .named "CS Avva Shenouda" } }]) } (some ⟨0⟩),
    .addPartReference ⟨0⟩ none "m"].foldl Edit.apply (.new {})
  let c := (Call.commands ⟨2⟩).run 3 c₀
  let c' := (Call.fonts ⟨2⟩).run 3 c
  exact ⟨c₀, c, c', (Context.isBuilt_new {}).edits (by decide +kernel),
    Call.ends_run (by decide +kernel), Call.ends_run (by decide +kernel), by decide +kernel,
    by decide +kernel⟩

end Rubric
