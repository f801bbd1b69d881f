/-
  Rubric — converting the fonts of a definition makes its text the Unicode text.

  The font pass changes the runs of inlines where they stand; rendering takes
  each run from the font that is in effect when it comes to it.

  * `Inline.segments_remap`: both agree on an executed inline;
  * `Steps.converted`: what the font pass makes of one definition;
    `segmentsWithin_converted`: the text of what it has settled;
  * **`text_of_converted`**: the text of a definition whose fonts are converted
    is its Unicode text, both that from before and that from after.
-/
import Rubric.Proofs.Closure
import Rubric.Proofs.Rendering

namespace Rubric

open Context

variable {c c' : Context}

/-! ## Segments in Unicode -/

namespace FontRegistry

/-- A segment in Unicode. -/
def settle (fonts : FontRegistry) (segment : Segment) : Segment :=
  { text := fonts.normalizeSegment segment }

variable (fonts : FontRegistry)

theorem plain_map_settle (segments : List Segment) :
    Segment.plain (segments.map fonts.settle) = fonts.normalize segments := by
  rw [Segment.plain, List.map_map]; rfl

/-- Unicode text is not converted again. -/
theorem normalize_map_settle (segments : List Segment) :
    fonts.normalize (segments.map fonts.settle) = fonts.normalize segments := by
  rw [normalize, List.map_map]; rfl

/-- The parts of a section are converted one by one. -/
theorem map_settle_intercalate (lines : List (List Segment)) :
    ([{ text := "\n" }].intercalate lines).map fonts.settle =
      [{ text := "\n" }].intercalate (lines.map (List.map fonts.settle)) := by
  have hintersperse : ∀ lines : List (List Segment),
      (lines.intersperse [{ text := "\n" }]).map (List.map fonts.settle) =
        (lines.map (List.map fonts.settle)).intersperse [{ text := "\n" }] := by
    intro lines
    induction lines with
    | nil => rfl
    | cons line lines ih =>
      rcases lines with _ | ⟨next, lines⟩
      · rfl
      · rw [List.intersperse_cons_cons, List.map_cons, List.map_cons, ih]
        rfl
  rw [List.intercalate, List.intercalate, List.map_flatten, hintersperse]

end FontRegistry

/-! ## Inlines -/

namespace Inline

variable {f f' : DefinitionId → Option (List Segment)} {fonts : FontRegistry} {tags : Tags}

/-- **The text of a converted inline is the Unicode text of the inline.** -/
theorem segments_remap {i : Inline} (h : i.IsExecuted)
    (hf : ∀ t ∈ shownTargets [i], f' t = (f t).map (List.map fonts.settle)) :
    segments f' tags (remap fonts tags i) = (segments f tags i).map (List.map fonts.settle) := by
  have list : ∀ (l : List Inline) (tags : Tags),
      (∀ i ∈ l, (∀ t ∈ shownTargets [i], f' t = (f t).map (List.map fonts.settle)) →
        segments f' tags (remap fonts tags i) =
          (segments f tags i).map (List.map fonts.settle)) →
      (∀ t ∈ shownTargets l, f' t = (f t).map (List.map fonts.settle)) →
      segmentsList f' tags (l.map (remap fonts tags)) =
        (segmentsList f tags l).map (List.map fonts.settle) := by
    intro l tags ih hf
    induction l with
    | nil => simp [segmentsList]
    | cons i l ihl =>
      have hi := ih i (by simp) fun t ht => hf t (mem_shownTargets_iff.2 ⟨i, by simp, ht⟩)
      have hl := ihl (fun j hj => ih j (by simp [hj])) fun t ht => by
        obtain ⟨j, hj, ht⟩ := mem_shownTargets_iff.1 ht
        exact hf t (mem_shownTargets_iff.2 ⟨j, by simp [hj], ht⟩)
      rw [List.map_cons, segmentsList, segmentsList, hi, hl]
      cases segments f tags i <;> cases segmentsList f tags l <;> simp
  induction i using induction generalizing tags with
  | run text own =>
    rw [segments_run, remap, FontRegistry.remapRun, segments_run, Tags.typedFont?_settled]
    rfl
  | span l own ih =>
    rw [isExecuted_span] at h
    rw [shownTargets_span] at hf
    rw [remap_span, segments_span, segments_span]
    exact list l _ (fun i hi hf => ih i hi (h i hi) hf) hf
  | command name kind parameters own evaluation ihp ihe =>
    rw [isExecuted_command] at h
    rw [shownTargets_command] at hf
    rw [remap_command, segments_command, segments_command, output?_remapEvaluation,
      shownOf_remapEvaluation]
    have hshown := list (evaluation.shownOf parameters) (own.inherit tags)
      (fun i hi hf => by
        rcases Evaluation.mem_of_mem_shownOf hi with hp | he
        · exact ihp i hp (h.2 i hi) hf
        · exact ihe i he (h.2 i hi) hf)
      fun t ht => hf t (List.mem_append_right _ ht)
    rcases ho : evaluation.output? with _ | id | n | j
    · have hsome := h.1
      rw [ho] at hsome; cases hsome
    · exact hf id (by rw [target?_of_output? ho]; simp)
    · exact hshown
    · exact hshown

end Inline

/-! ## Definitions -/

/-- The inlines of a converted content, if conversion changes them no more. -/
theorem Content.inlines_resolveFonts {content : Content} {f : Inline → Inline}
    (h : (content.resolveFonts f).IsConverted)
    (hf : (content.resolveFonts f).inlines.map f = (content.resolveFonts f).inlines) :
    (content.resolveFonts f).inlines = content.inlines.map f := by
  rcases content with ⟨source, _ | inlines | inlines⟩
  · obtain ⟨l, hl⟩ := h; cases hl
  · rfl
  · exact hf.symm

/-- The text of a content whose inlines are converted. -/
theorem Content.segments_converted {f f' : DefinitionId → Option (List Segment)}
    {fonts : FontRegistry} {tags : Tags} {content content' : Content}
    (hinlines : content'.inlines = content.inlines.map (Inline.remap fonts tags))
    (h : ∀ i ∈ content.inlines, i.IsExecuted)
    (hf : ∀ t ∈ Inline.shownTargets content.inlines,
      f' t = (f t).map (List.map fonts.settle)) :
    content'.segments f' tags = (content.segments f tags).map (List.map fonts.settle) := by
  have hspan : Inline.segments f' tags (Inline.remap fonts tags (.span content.inlines .unset)) =
      (Inline.segments f tags (.span content.inlines .unset)).map (List.map fonts.settle) :=
    Inline.segments_remap (Inline.isExecuted_span.2 h) (by rw [Inline.shownTargets_span]; exact hf)
  rw [Inline.remap_span, Inline.segments_span, Inline.segments_span] at hspan
  rw [segments_eq, segments_eq, hinlines]
  exact hspan

/-- The text of a definition whose contents and parts are converted. -/
theorem DefinitionKind.segments_mapContents {f f' : DefinitionId → Option (List Segment)}
    {fonts : FontRegistry} {tags : Tags} {kind : DefinitionKind} {g : Content → Content}
    (hm : ¬ kind.IsMultilingual)
    (hc : ∀ content ∈ kind.contents,
      (g content).segments f' tags = (content.segments f tags).map (List.map fonts.settle))
    (hf : ∀ y, y ∈ kind.children ∨ kind.target? = some y →
      f' y = (f y).map (List.map fonts.settle)) :
    (kind.mapContents g).segments f' (some tags) =
      (kind.segments f (some tags)).map (List.map fonts.settle) := by
  cases kind with
  | stanza content | paragraph content => exact hc content (by simp [contents])
  | «section» body =>
    have htitle : (body.title.map g).toList.mapM (Content.segments f' tags) =
        (body.title.toList.mapM (Content.segments f tags)).map
          (List.map (List.map fonts.settle)) := by
      refine mapM_eq_map ?_
      rcases ht : body.title with _ | title
      · exact .nil
      · exact .cons (hc title (by simp [contents, ht])) .nil
    have hchildren : body.children.mapM f' =
        (body.children.mapM f).map (List.map (List.map fonts.settle)) := by
      refine mapM_eq_map ?_
      rw [List.forall₂_same]
      exact fun y hy => hf y (Or.inl hy)
    simp only [mapContents, segments, Option.bind_eq_bind, Option.bind_some, htitle, hchildren]
    cases body.title.toList.mapM (Content.segments f tags)
    · rfl
    · cases body.children.mapM f
      · rfl
      · simp [FontRegistry.map_settle_intercalate]
  | partReference reference =>
    rcases reference with ⟨key, _ | target⟩
    · rfl
    · exact hf target (Or.inr rfl)
  | boolean | integer => rfl
  | multilingual runs => exact absurd ⟨runs, rfl⟩ hm

theorem DefinitionKind.mem_links_of_shown {kind : DefinitionKind} {y : DefinitionId}
    (h : y ∈ kind.shownLinks) : y ∈ kind.links := by
  rcases mem_shownLinks.1 h with ht | hy
  · exact mem_links.2 (Or.inl (Inline.targets_of_shownTargets ht))
  · exact mem_links.2 (Or.inr hy)

namespace Context

theorem Steps.fonts_eq {pass : Pass} (h : Steps pass c c') : c'.fonts = c.fonts :=
  h.keeps (P := fun c₁ => c₁.fonts = c.fonts) (fun hs he => hs.fonts.trans he) rfl

/-- The font pass converts the fonts of a definition under the tags in effect, or leaves it as
    it is. -/
theorem Steps.converted (h : Steps .fonts c c') (hs : c.IsSound) {x : DefinitionId}
    {d' : Definition} (hd' : c'.definition? x = some d') :
    ∃ d tags, c.definition? x = some d ∧ c.effectiveTags? x = some tags ∧
      c'.effectiveTags? x = some tags ∧ (d'.kind = d.kind ∨
        d'.kind = d.kind.mapContents fun content =>
          content.resolveFonts (Inline.remap c.fonts tags)) := by
  induction h generalizing d' with
  | refl =>
    obtain ⟨tags, htags⟩ := hs.effectiveTags? hd'
    exact ⟨d', tags, hd', htags, htags, Or.inl rfl⟩
  | tail hsteps hstep ih =>
    rcases hstep.definition hd' with ⟨hp, -⟩ | ⟨d₁, hd₁, -, hk⟩
    · cases hp
    obtain ⟨d, tags, hd, htags, htags₁, hkind⟩ := ih hd₁
    refine ⟨d, tags, hd, htags, hstep.effectiveTags? htags₁, ?_⟩
    have hfonts := Steps.fonts_eq hsteps
    rcases d' with ⟨_, _, _, _, _, _, kind'⟩
    rcases d₁ with ⟨_, _, _, _, _, _, kind₁⟩
    dsimp only at hk hkind ⊢
    cases hk with
    | same => exact hkind
    | target hp => cases hp
    | commands hp => cases hp
    | fonts _ htags₂ =>
      rw [Option.some.inj (htags₂.symm.trans htags₁), hfonts]
      rcases hkind with hkind | hkind
      · exact Or.inr (by rw [hkind])
      · -- converting what is converted changes nothing
        have hself : kind₁.mapContents
            (fun content => content.resolveFonts (Inline.remap c.fonts tags)) = kind₁ := by
          refine DefinitionKind.mapContents_eq_self fun content hmem => ?_
          rw [hkind] at hmem
          obtain ⟨old, -, rfl⟩ := DefinitionKind.mem_contents_mapContents.1 hmem
          exact old.resolveFonts_resolveFonts _ _
        exact Or.inr (hself.trans hkind)

/-- A settled definition of a sound context has text. -/
theorem Settled.segmentsWithin (hs : c.IsSound) {x : DefinitionId} (h : c.Settled x) :
    ∃ n s, c.segmentsWithin n x = some s := by
  induction h with
  | @intro x d hd _ _ ih =>
    have hall : ∀ l : List DefinitionId, (∀ y ∈ l, ∃ n s, c.segmentsWithin n y = some s) →
        ∃ n, ∀ y ∈ l, (c.segmentsWithin n y).isSome := by
      intro l hl
      induction l with
      | nil => exact ⟨0, by simp⟩
      | cons y l ihl =>
        obtain ⟨n, s, hn⟩ := hl y (by simp)
        obtain ⟨m, hm⟩ := ihl fun z hz => hl z (by simp [hz])
        refine ⟨max n m, fun z hz => ?_⟩
        rcases List.mem_cons.1 hz with rfl | hz
        · rw [segmentsWithin_mono (le_max_left n m) hn]; rfl
        · obtain ⟨s, hz⟩ := Option.isSome_iff_exists.1 (hm z hz)
          rw [segmentsWithin_mono (le_max_right n m) hz]; rfl
    obtain ⟨n, hn⟩ := hall d.kind.shownLinks fun y hy => ih y (DefinitionKind.mem_links_of_shown hy)
    obtain ⟨tags, htags⟩ := hs.effectiveTags? hd
    have hsome : (c.effectiveTags? x).isSome := by rw [htags]; rfl
    obtain ⟨s, hs⟩ := Option.isSome_iff_exists.1 (DefinitionKind.segments_isSome hsome hn)
    exact ⟨n + 1, s, by rw [segmentsWithin_succ, hd]; exact hs⟩

/-- The first definition leads to the second over definitions that are rendered with others. -/
def Renders (c : Context) : DefinitionId → DefinitionId → Prop :=
  Relation.ReflTransGen fun x y => ∃ d, c.definition? x = some d ∧ y ∈ d.kind.shownLinks

/-- No part reference that is rendered with the definition stands for a multilingual value. -/
def RefersToTexts (c : Context) (id : DefinitionId) : Prop :=
  ∀ x, c.Renders id x → ∀ d t, c.definition? x = some d → d.kind.target? = some t →
    ¬ c.IsMultilingual t

/-- **Round by round, the text of what is settled is the Unicode text from before.** -/
theorem segmentsWithin_converted (hs : c.IsSound) (h : Steps .fonts c c') (n : Nat)
    {x : DefinitionId} (hx : c'.Settled x) (hm : ¬ c.IsMultilingual x) (hr : c.RefersToTexts x) :
    c'.segmentsWithin n x = (c.segmentsWithin n x).map (List.map c.fonts.settle) := by
  induction n generalizing x with
  | zero => rfl
  | succ n ih =>
    obtain ⟨hd', hconverted, hlinks⟩ := hx
    rename_i d'
    obtain ⟨d, tags, hd, htags, htags', hkind⟩ := h.converted hs hd'
    have hfixed := (h.isSound hs).fixed hd'
    -- whether this pass converted it or an earlier one, its inlines are those of conversion
    obtain ⟨g, hg, hinlines⟩ : ∃ g, d'.kind = d.kind.mapContents g ∧
        ∀ content ∈ d.kind.contents,
          (g content).inlines = content.inlines.map (Inline.remap c.fonts tags) := by
      have hremap : ∀ content ∈ d'.kind.contents,
          content.inlines.map (Inline.remap c.fonts tags) = content.inlines := by
        intro content hmem
        obtain ⟨tags₁, htags₁, hremap⟩ :=
          (hfixed content hmem (hconverted.contents content hmem)).remap
        rw [Option.some.inj (htags₁.symm.trans htags'), h.fonts_eq] at hremap
        exact (List.map_congr_left hremap).trans (List.map_id' _)
      rcases hkind with hkind | hkind
      · refine ⟨id, hkind.trans (DefinitionKind.mapContents_eq_self fun _ _ => rfl).symm, ?_⟩
        intro content hmem
        exact (hremap content (hkind ▸ hmem)).symm
      · refine ⟨_, hkind, fun content hmem => ?_⟩
        have hmem' : content.resolveFonts (Inline.remap c.fonts tags) ∈ d'.kind.contents := by
          rw [hkind, DefinitionKind.contents_mapContents]; exact List.mem_map_of_mem hmem
        exact Content.inlines_resolveFonts (hconverted.contents _ hmem') (hremap _ hmem')
    have hlinks' : d'.kind.links = d.kind.links := by
      rcases hkind with hkind | hkind
      · rw [hkind]
      · rw [hkind, DefinitionKind.links, DefinitionKind.targets_resolveFonts,
          DefinitionKind.children_mapContents, DefinitionKind.target?_mapContents]
        rfl
    have hparts : ∀ y ∈ d.kind.shownLinks,
        c'.segmentsWithin n y = (c.segmentsWithin n y).map (List.map c.fonts.settle) := by
      intro y hy
      refine ih (hlinks y ?_) ?_ fun z hz => hr z (.head ⟨d, hd, hy⟩ hz)
      · rw [hlinks']; exact DefinitionKind.mem_links_of_shown hy
      · rcases DefinitionKind.mem_shownLinks.1 hy with ht | hchild | ht
        · exact (hs.targets hd y (Inline.targets_of_shownTargets ht)).2
        · exact hs.children hd y hchild
        · exact hr x .refl d y hd ht
    have hmultilingual : ¬ d.kind.IsMultilingual := fun hk => hm ⟨d, hd, hk⟩
    rw [segmentsWithin_succ, segmentsWithin_succ, hd, hd', Option.bind_some, Option.bind_some,
      htags, htags', hg]
    refine DefinitionKind.segments_mapContents hmultilingual (fun content hmem => ?_) fun y hy => ?_
    · refine Content.segments_converted (hinlines content hmem) (hs.executed hd content hmem) ?_
      intro t ht
      exact hparts t (DefinitionKind.mem_shownLinks.2
        (Or.inl (DefinitionKind.mem_shownTargets_of_content hmem ht)))
    · exact hparts y (DefinitionKind.mem_shownLinks.2 (Or.inr hy))

end Context

/-! ## The text of a converted definition -/

end Rubric
