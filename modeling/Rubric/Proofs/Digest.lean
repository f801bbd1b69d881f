/-
  Rubric — texts that look alike.

  Rendering puts segments together and does not look into them.  What is read
  off the texts of two definitions is the same if it is the same for each part.

  * `Segment.Merges φ`: what `φ` reads off segments follows from what it reads off
    their parts: the plain text, and the segments in Unicode;
  * `Context.segmentsOver`: one round of rendering a definition;
    **`segmentsWithin_congr`**: rounds that look alike make texts that look alike;
  * **`DefinitionKind.settled_resolveFonts`**: in Unicode, the text of a definition
    looks alike before and after conversion, whatever it inserts.
-/
import Rubric.Proofs.Conversion

namespace Rubric

open Context

/-! ## Reading segments -/

namespace Segment

variable {α : Type} {φ : List Segment → α}

/-- Segments look alike under `φ` if they are put together from parts that do. -/
def Merges (φ : List Segment → α) : Prop :=
  ∀ {a a' b b'}, φ a = φ a' → φ b = φ b' → φ (a ++ b) = φ (a' ++ b')

theorem plain_append (a b : List Segment) : plain (a ++ b) = plain a ++ plain b := by
  simp only [plain, List.map_append, String.join_append]

theorem merges_plain : Merges plain := by
  intro a a' b b' ha hb
  rw [plain_append, plain_append, ha, hb]

theorem merges_id : Merges (id : List Segment → List Segment) := by
  intro a a' b b' ha hb
  exact congrArg₂ (· ++ ·) ha hb

theorem merges_settle (fonts : FontRegistry) : Merges (List.map fonts.settle) := by
  intro a a' b b' ha hb
  rw [List.map_append, List.map_append, ha, hb]

namespace Merges

variable (h : Merges φ)
include h

theorem append {a a' b b' : Option (List Segment)} (ha : a.map φ = a'.map φ)
    (hb : b.map φ = b'.map φ) :
    (do return (← a) ++ (← b)).map φ = (do return (← a') ++ (← b')).map φ := by
  rcases a with _ | a <;> rcases a' with _ | a' <;> try cases ha
  · rfl
  · rcases b with _ | b <;> rcases b' with _ | b' <;> try cases hb
    · rfl
    · exact congrArg some (h (Option.some.inj ha) (Option.some.inj hb))

theorem intercalate (separator : List Segment) {lines lines' : List (List Segment)}
    (hlines : lines.map φ = lines'.map φ) :
    φ (separator.intercalate lines) = φ (separator.intercalate lines') := by
  have hcons : ∀ (line next : List Segment) (rest : List (List Segment)),
      separator.intercalate (line :: next :: rest) =
        line ++ (separator ++ separator.intercalate (next :: rest)) := fun _ _ _ => rfl
  induction lines generalizing lines' with
  | nil => rw [List.map_eq_nil_iff.1 hlines.symm]
  | cons line lines ih =>
    rcases lines' with _ | ⟨line', lines'⟩
    · cases hlines
    obtain ⟨hline, hrest⟩ := List.cons.inj hlines
    rcases lines with _ | ⟨next, rest⟩ <;> rcases lines' with _ | ⟨next', rest'⟩
    · simpa [List.intercalate] using hline
    · cases hrest
    · cases hrest
    · rw [hcons, hcons]
      exact h hline (h rfl (ih hrest))

/-- The lines of a section look alike if its titles and its parts do. -/
theorem lines {separator : List Segment}
    {titles titles' parts parts' : Option (List (List Segment))}
    (ht : titles.map (List.map φ) = titles'.map (List.map φ))
    (hp : parts.map (List.map φ) = parts'.map (List.map φ)) :
    (do return separator.intercalate ((← titles) ++ (← parts))).map φ =
      (do return separator.intercalate ((← titles') ++ (← parts'))).map φ := by
  rcases titles with _ | titles <;> rcases titles' with _ | titles' <;> try cases ht
  · rfl
  · rcases parts with _ | parts <;> rcases parts' with _ | parts' <;> try cases hp
    · rfl
    · refine congrArg some (h.intercalate separator ?_)
      rw [List.map_append, List.map_append, Option.some.inj ht, Option.some.inj hp]

end Merges

end Segment

open Segment

/-! ## Rendering -/

section
variable {α : Type} {φ : List Segment → α} (hφ : Merges φ)
  {f g : DefinitionId → Option (List Segment)}
include hφ

namespace Inline

/-- A text looks alike if the definitions that it shows do. -/
theorem segments_congr (i : Inline) (enclosing : Tags)
    (h : ∀ t ∈ shownTargets [i], (f t).map φ = (g t).map φ) :
    (segments f enclosing i).map φ = (segments g enclosing i).map φ := by
  have list : ∀ (l : List Inline) (enclosing : Tags),
      (∀ i ∈ l, (∀ t ∈ shownTargets [i], (f t).map φ = (g t).map φ) →
        (segments f enclosing i).map φ = (segments g enclosing i).map φ) →
      (∀ t ∈ shownTargets l, (f t).map φ = (g t).map φ) →
      (segmentsList f enclosing l).map φ = (segmentsList g enclosing l).map φ := by
    intro l enclosing ih h
    induction l with
    | nil => rw [segmentsList, segmentsList]
    | cons i l ihl =>
      rw [segmentsList, segmentsList]
      refine hφ.append (ih i (by simp) fun t ht => ?_)
        (ihl (fun j hj => ih j (by simp [hj])) fun t ht => ?_)
      · exact h t (mem_shownTargets_iff.2 ⟨i, by simp, ht⟩)
      · obtain ⟨j, hj, ht⟩ := mem_shownTargets_iff.1 ht
        exact h t (mem_shownTargets_iff.2 ⟨j, by simp [hj], ht⟩)
  induction i using induction generalizing enclosing with
  | run text own => rw [segments_run, segments_run]
  | span l own ih =>
    rw [shownTargets_span] at h
    rw [segments_span, segments_span]
    exact list l _ (fun i hi h => ih i hi _ h) h
  | command name kind parameters own evaluation ihp ihe =>
    rw [shownTargets_command] at h
    rw [segments_command, segments_command]
    rcases ho : evaluation.output? with _ | id | n | j
    · rfl
    · exact h id (by rw [target?_of_output? ho]; simp)
    all_goals
      refine list _ _ (fun i hi h => ?_) fun t ht => h t (List.mem_append_right _ ht)
      rcases Evaluation.mem_of_mem_shownOf hi with hp | he
      · exact ihp i hp _ h
      · exact ihe i he _ h

end Inline

namespace Content

/-- The text of a content looks alike if the definitions that it shows do. -/
theorem segments_congr {content : Content} {tags : Tags}
    (h : ∀ t ∈ Inline.shownTargets content.inlines, (f t).map φ = (g t).map φ) :
    (content.segments f tags).map φ = (content.segments g tags).map φ := by
  have hspan := Inline.segments_congr hφ (.span content.inlines .unset) tags
    (by rw [Inline.shownTargets_span]; exact h)
  rw [Inline.segments_span, Inline.segments_span] at hspan
  rw [segments_eq, segments_eq]
  exact hspan

end Content

namespace DefinitionKind

/-- What a definition stands for looks alike if its contents and its parts do. -/
theorem segments_mapContents_congr {kind : DefinitionKind} {k : Content → Content}
    {tags? : Option Tags}
    (hc : ∀ content ∈ kind.contents, ∀ tags, tags? = some tags →
      ((k content).segments f tags).map φ = (content.segments g tags).map φ)
    (hf : ∀ y, y ∈ kind.children ∨ kind.target? = some y → (f y).map φ = (g y).map φ) :
    ((kind.mapContents k).segments f tags?).map φ = (kind.segments g tags?).map φ := by
  cases kind with
  | stanza content | paragraph content =>
    rcases tags? with _ | tags
    · rfl
    · exact hc content (by simp [contents]) tags rfl
  | «section» body =>
    rcases tags? with _ | tags
    · rfl
    have htitle : ((body.title.map k).toList.mapM (Content.segments f tags)).map (List.map φ) =
        (body.title.toList.mapM (Content.segments g tags)).map (List.map φ) := by
      rcases ht : body.title with _ | title
      · rfl
      · have htext := hc title (by simp [contents, ht]) tags rfl
        simp only [Option.map_some, Option.toList_some, List.mapM_cons, List.mapM_nil]
        cases hk : (k title).segments f tags <;> cases htitle : title.segments g tags <;>
          simp_all
    have hchildren : (body.children.mapM f).map (List.map φ) =
        (body.children.mapM g).map (List.map φ) := mapM_map_congr fun y hy => hf y (Or.inl hy)
    exact hφ.lines htitle hchildren
  | partReference reference =>
    rcases reference with ⟨key, _ | target⟩
    · rfl
    · exact hf target (Or.inr rfl)
  | boolean | integer | multilingual => rfl

/-- What a definition stands for looks alike if what is rendered with it does. -/
theorem segments_congr {kind : DefinitionKind} {tags? : Option Tags}
    (h : ∀ y ∈ kind.shownLinks, (f y).map φ = (g y).map φ) :
    (kind.segments f tags?).map φ = (kind.segments g tags?).map φ := by
  have hkind : ((kind.mapContents fun content => content).segments f tags?).map φ =
      (kind.segments g tags?).map φ :=
    segments_mapContents_congr hφ (fun content hcontent tags _ =>
      Content.segments_congr hφ fun t ht =>
        h t (mem_shownLinks.2 (Or.inl (mem_shownTargets_of_content hcontent ht))))
      fun y hy => h y (mem_shownLinks.2 (Or.inr hy))
  rwa [mapContents_eq_self fun _ _ => rfl] at hkind

end DefinitionKind

end

/-! ## Rounds -/

namespace Context

variable {c c' : Context}

/-- The segments of a definition, from those of the definitions that it stands for. -/
def segmentsOver (c : Context) (segmentsOf : DefinitionId → Option (List Segment))
    (id : DefinitionId) : Option (List Segment) :=
  (c.definition? id).bind fun d => d.kind.segments segmentsOf (c.effectiveTags? id)

/-- **Rounds that look alike make texts that look alike**, for all definitions of a set that holds
    whatever is rendered with its members. -/
theorem segmentsWithin_congr {α : Type} {φ : List Segment → α} (hφ : Merges φ)
    {S : DefinitionId → Prop}
    (hS : ∀ {x d}, S x → c.definition? x = some d → ∀ y ∈ d.kind.shownLinks, S y)
    (h : ∀ f {x}, S x → (c'.segmentsOver f x).map φ = (c.segmentsOver f x).map φ)
    (n : Nat) {x : DefinitionId} (hx : S x) :
    (c'.segmentsWithin n x).map φ = (c.segmentsWithin n x).map φ := by
  induction n generalizing x with
  | zero => rfl
  | succ n ih =>
    rw [segmentsWithin_succ, segmentsWithin_succ]
    refine (h (c'.segmentsWithin n) hx).trans ?_
    unfold segmentsOver
    rcases hd : c.definition? x with _ | d
    · rfl
    · exact DefinitionKind.segments_congr hφ fun y hy => ih (hS hx hd y hy)

/-- Rounds that are the same make the same texts. -/
theorem segmentsWithin_eq {S : DefinitionId → Prop}
    (hS : ∀ {x d}, S x → c.definition? x = some d → ∀ y ∈ d.kind.shownLinks, S y)
    (h : ∀ f {x}, S x → c'.segmentsOver f x = c.segmentsOver f x) (n : Nat) {x : DefinitionId}
    (hx : S x) : c'.segmentsWithin n x = c.segmentsWithin n x := by
  simpa using segmentsWithin_congr merges_id hS (fun f {_} hx => congrArg (Option.map id) (h f hx))
    n hx

end Context

/-! ## Conversion -/

section
variable {fonts : FontRegistry} {tags : Tags}

theorem FontRegistry.map_settle_map_settle (segments : List Segment) :
    (segments.map fonts.settle).map fonts.settle = segments.map fonts.settle := by
  rw [List.map_map]; rfl

namespace Inline

/-- Conversion keeps the definitions that rendered commands stand for. -/
theorem shownTargets_remap (i : Inline) :
    shownTargets [remap fonts tags i] = shownTargets [i] := by
  have hlist : ∀ {l : List Inline} {tags : Tags},
      (∀ i ∈ l, shownTargets [remap fonts tags i] = shownTargets [i]) →
      shownTargets (l.map (remap fonts tags)) = shownTargets l := by
    intro l tags h
    have hflat : ∀ l : List Inline, shownTargets l = l.flatMap fun i => shownTargets [i] := by
      intro l
      simp [shownTargets, shownList_eq, List.filterMap_flatMap]
    rw [hflat, hflat l, List.flatMap_map]
    exact List.flatMap_congr h
  induction i using induction generalizing tags with
  | run text own => rfl
  | span l own ih =>
    rw [remap_span, shownTargets_span, shownTargets_span]
    exact hlist fun i hi => ih i hi
  | command name kind parameters own evaluation ihp ihe =>
    have htarget : (remap fonts tags (command name kind parameters own evaluation)).target? =
        (command name kind parameters own evaluation).target? := target?_remap _
    rw [remap_command] at htarget ⊢
    rw [shownTargets_command, shownTargets_command, htarget, shownOf_remapEvaluation]
    congr 1
    refine hlist fun i hi => ?_
    rcases Evaluation.mem_of_mem_shownOf hi with hp | he
    · exact ihp i hp
    · exact ihe i he

theorem shownTargets_map_remap (l : List Inline) :
    shownTargets (l.map (remap fonts tags)) = shownTargets l := by
  have hspan : shownTargets [remap fonts tags (.span l .unset)] = shownTargets [.span l .unset] :=
    shownTargets_remap _
  rwa [remap_span, shownTargets_span, shownTargets_span] at hspan

/-- In Unicode, a text looks alike before and after conversion. -/
theorem settled_remap {i : Inline} (h : i.IsExecuted) (f : DefinitionId → Option (List Segment)) :
    (segments f tags (remap fonts tags i)).map (List.map fonts.settle) =
      (segments f tags i).map (List.map fonts.settle) := by
  let f' : DefinitionId → Option (List Segment) := fun t => (f t).map (List.map fonts.settle)
  have hcongr := segments_congr (merges_settle fonts) (remap fonts tags i) tags
    (f := f) (g := f') fun t _ => by
      simp only [f', Option.map_map]
      congr 1
      funext segments
      exact (FontRegistry.map_settle_map_settle segments).symm
  rw [hcongr, segments_remap h fun _ _ => rfl, Option.map_map]
  congr 1
  funext segments
  exact FontRegistry.map_settle_map_settle segments

end Inline

/-- In Unicode, the text of a content looks alike before and after conversion. -/
theorem Content.settled_resolveFonts {content : Content}
    (h : ∀ i ∈ content.inlines, i.IsExecuted) (f : DefinitionId → Option (List Segment)) :
    ((content.resolveFonts (Inline.remap fonts tags)).segments f tags).map (List.map fonts.settle) =
      (content.segments f tags).map (List.map fonts.settle) := by
  rcases content with ⟨source, _ | inlines | inlines⟩
  · rfl
  · have hexecuted : (Inline.span inlines .unset).IsExecuted := Inline.isExecuted_span.2 h
    have hspan : ((Inline.remap fonts tags (.span inlines .unset)).segments f tags).map
        (List.map fonts.settle) = _ := Inline.settled_remap hexecuted f
    rw [Inline.remap_span, Inline.segments_span, Inline.segments_span] at hspan
    exact hspan
  · rfl

theorem Content.shownTargets_resolveFonts (content : Content) :
    Inline.shownTargets (content.resolveFonts (Inline.remap fonts tags)).inlines =
      Inline.shownTargets content.inlines := by
  rcases content with ⟨source, _ | inlines | inlines⟩
  · rfl
  · exact Inline.shownTargets_map_remap inlines
  · rfl

namespace DefinitionKind

/-- **In Unicode, the text of a definition looks alike before and after conversion**, whatever the
    definitions are that it stands for. -/
theorem settled_resolveFonts {kind : DefinitionKind}
    (h : ∀ content ∈ kind.contents, ∀ i ∈ content.inlines, i.IsExecuted)
    (f : DefinitionId → Option (List Segment)) :
    ((kind.mapContents fun content => content.resolveFonts (Inline.remap fonts tags)).segments f
      (some tags)).map (List.map fonts.settle) =
        (kind.segments f (some tags)).map (List.map fonts.settle) := by
  refine segments_mapContents_congr (merges_settle fonts) (fun content hcontent _ htags => ?_)
    fun _ _ => rfl
  cases htags
  exact Content.settled_resolveFonts (h content hcontent) f

/-- Conversion keeps what is rendered with a definition. -/
theorem shownLinks_resolveFonts (kind : DefinitionKind) :
    (kind.mapContents fun content => content.resolveFonts (Inline.remap fonts tags)).shownLinks =
      kind.shownLinks := by
  rw [shownLinks, shownLinks, children_mapContents, target?_mapContents]
  congr 1
  rcases kind with ⟨_ | title, _⟩ | content | content | _ | _ | _ | _ <;>
    simp [mapContents, shownTargets, contents, Content.shownTargets_resolveFonts]

end DefinitionKind

end

end Rubric
