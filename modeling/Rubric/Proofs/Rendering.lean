/-
  Rubric — what the text of a definition depends on.

  * `Inline.segments_command`, `Context.segmentsWithin_succ`: rendering by
    equations; `DefinitionKind.segments` is one round of it;
  * `segmentsWithin_mono`: with more rounds no text changes;
  * **`enough`**: a recursion over definitions that ends for each of them in
    some number of rounds ends in as many rounds as there are definitions;
    `segments?_of_within` is the case of rendering.
-/
import Mathlib.Data.Finset.Card
import Rubric.Proofs.Inline
import Rubric.Proofs.Node

namespace Rubric

/-! ## Lists of values that may be missing -/

section
variable {α β γ : Type} {l : List α} {f g : α → Option β}

theorem mapM_cons_eq_some {a : α} {ys : List β} :
    (a :: l).mapM f = some ys ↔ ∃ y zs, f a = some y ∧ l.mapM f = some zs ∧ ys = y :: zs := by
  rw [List.mapM_cons]
  simp only [Option.bind_eq_bind, Option.bind_eq_some_iff, Option.pure_def, Option.some.injEq]
  constructor
  · rintro ⟨y, hy, zs, hzs, rfl⟩; exact ⟨y, zs, hy, hzs, rfl⟩
  · rintro ⟨y, zs, hy, hzs, rfl⟩; exact ⟨y, hy, zs, hzs, rfl⟩

theorem mapM_mono (h : ∀ a ∈ l, ∀ b, f a = some b → g a = some b) {ys : List β}
    (hf : l.mapM f = some ys) : l.mapM g = some ys := by
  induction l generalizing ys with
  | nil => exact hf
  | cons a l ih =>
    obtain ⟨y, zs, hy, hzs, rfl⟩ := mapM_cons_eq_some.1 hf
    have hrest := ih (fun b hb => h b (by simp [hb])) hzs
    exact mapM_cons_eq_some.2 ⟨y, zs, h a (by simp) y hy, hrest, rfl⟩

theorem mapM_isSome (h : ∀ a ∈ l, (f a).isSome) : (l.mapM f).isSome := by
  induction l with
  | nil => rfl
  | cons a l ih =>
    obtain ⟨y, hy⟩ := Option.isSome_iff_exists.1 (h a (by simp))
    obtain ⟨zs, hzs⟩ := Option.isSome_iff_exists.1 (ih fun b hb => h b (by simp [hb]))
    rw [mapM_cons_eq_some.2 ⟨y, zs, hy, hzs, rfl⟩]; rfl

theorem map_mapM (φ : β → γ) : (l.mapM f).map (List.map φ) = l.mapM fun a => (f a).map φ := by
  induction l with
  | nil => rfl
  | cons a l ih =>
    rw [List.mapM_cons, List.mapM_cons, ← ih]
    cases f a <;> cases l.mapM f <;> rfl

theorem mapM_map_congr {φ : β → γ} (h : ∀ a ∈ l, (f a).map φ = (g a).map φ) :
    (l.mapM f).map (List.map φ) = (l.mapM g).map (List.map φ) := by
  rw [map_mapM, map_mapM]
  induction l with
  | nil => rfl
  | cons a l ih =>
    rw [List.mapM_cons, List.mapM_cons, h a (by simp), ih fun b hb => h b (by simp [hb])]

theorem mapM_eq_map {k : γ → Option β} {l' : List γ} {φ : β → β}
    (h : List.Forall₂ (fun a a' => k a' = (f a).map φ) l l') :
    l'.mapM k = (l.mapM f).map (List.map φ) := by
  rw [map_mapM]
  induction h with
  | nil => rfl
  | cons ha _ ih => rw [List.mapM_cons, List.mapM_cons, ha, ih]

end

/-! ## Inlines -/

namespace Inline

variable {segmentsOf f g : DefinitionId → Option (List Segment)} {enclosing : Tags}

theorem segments_run (text : String) (own : Tags) :
    segments segmentsOf enclosing (run text own) =
      some [{ text, font := (own.inherit enclosing).typedFont? }] := by
  rw [segments]

theorem segments_span (l : List Inline) (own : Tags) :
    segments segmentsOf enclosing (span l own) =
      segmentsList segmentsOf (own.inherit enclosing) l := by
  rw [segments]

theorem segmentsList_singleton (i : Inline) :
    segmentsList segmentsOf enclosing [i] = segments segmentsOf enclosing i := by
  rw [segmentsList, segmentsList]
  cases segments segmentsOf enclosing i <;> simp

theorem segmentsList_cons_eq_some {i : Inline} {l : List Inline} {s : List Segment} :
    segmentsList segmentsOf enclosing (i :: l) = some s ↔
      ∃ first others, segments segmentsOf enclosing i = some first ∧
        segmentsList segmentsOf enclosing l = some others ∧ s = first ++ others := by
  rw [segmentsList]
  simp only [Option.bind_eq_bind, Option.bind_eq_some_iff, Option.pure_def, Option.some.injEq]
  constructor
  · rintro ⟨first, hi, others, hl, rfl⟩; exact ⟨first, others, hi, hl, rfl⟩
  · rintro ⟨first, others, hi, hl, rfl⟩; exact ⟨first, hi, others, hl, rfl⟩

theorem segmentsList_eq (l : List Inline) :
    segmentsList segmentsOf enclosing l =
      (l.mapM (segments segmentsOf enclosing)).map List.flatten := by
  induction l with
  | nil => rw [segmentsList]; rfl
  | cons i l ih =>
    rw [segmentsList, ih, List.mapM_cons]
    cases segments segmentsOf enclosing i <;> cases l.mapM (segments segmentsOf enclosing) <;> simp

theorem segmentsAt_eq : ∀ (n : Nat) (l : List Inline),
    segmentsAt segmentsOf enclosing n l = segmentsList segmentsOf enclosing l[n]?.toList
  | _, [] => by simp [segmentsAt, segmentsList]
  | 0, i :: l => by
    rw [segmentsAt, List.getElem?_cons_zero, Option.toList_some, segmentsList_singleton]
  | n + 1, i :: l => by rw [segmentsAt, segmentsAt_eq n l, List.getElem?_cons_succ]

/-- A command that is not executed stands for its markup; an executed one for a definition, or
    for an inline that it shows. -/
theorem segments_command (name : String) (kind : CommandKind) (parameters : List Inline)
    (own : Tags) (evaluation : Evaluation) :
    segments segmentsOf enclosing (command name kind parameters own evaluation) =
      match evaluation.output? with
      | none => some [{ text := (command name kind parameters own evaluation).source }]
      | some (.definition id) => segmentsOf id
      | some _ =>
        segmentsList segmentsOf (own.inherit enclosing) (evaluation.shownOf parameters) := by
  rw [segments]
  rcases evaluation with _ | ⟨_ | n | _⟩ | ⟨_ | n | _, _, _⟩ <;>
    simp [segmentsEvaluation, segmentsOutput, Evaluation.output?, Evaluation.shownOf, segmentsAt_eq,
      segmentsList_singleton]

/-- A command that stands for a definition has its text. -/
theorem segments_of_target? {i : Inline} {id : DefinitionId} (h : i.target? = some id) :
    segments segmentsOf enclosing i = segmentsOf id := by
  rcases i with _ | _ | ⟨name, kind, parameters, own, evaluation⟩
  case command =>
    rw [segments_command]
    rcases ho : evaluation.output? with _ | _ | _ | _ <;> simp_all [target?]
  all_goals cases h

/-- The definitions that rendered commands in the parts of an inline stand for. -/
theorem shownTargets_span (l : List Inline) (own : Tags) :
    shownTargets [span l own] = shownTargets l := by
  simp only [shownTargets, shownList, List.append_nil, shown_span]
  exact List.filterMap_cons_none rfl

theorem shownTargets_command (name : String) (kind : CommandKind) (parameters : List Inline)
    (own : Tags) (evaluation : Evaluation) :
    shownTargets [command name kind parameters own evaluation] =
      (target? (command name kind parameters own evaluation)).toList ++
        shownTargets (evaluation.shownOf parameters) := by
  simp only [shownTargets, shownList, List.append_nil, shown_command, List.filterMap_cons]
  cases target? (command name kind parameters own evaluation) <;> rfl

theorem mem_shownTargets_iff {id : DefinitionId} {l : List Inline} :
    id ∈ shownTargets l ↔ ∃ i ∈ l, id ∈ shownTargets [i] := by
  simp only [mem_shownTargets, mem_shownList, List.mem_singleton, exists_eq_left]
  constructor
  · rintro ⟨j, ⟨i, hi, hj⟩, ht⟩; exact ⟨i, hi, j, hj, ht⟩
  · rintro ⟨i, hi, j, hj, ht⟩; exact ⟨j, ⟨i, hi, hj⟩, ht⟩

/-- What a command stands for is what its evaluation has as output. -/
theorem target?_of_output? {name : String} {kind : CommandKind} {parameters : List Inline}
    {own : Tags} {evaluation : Evaluation} {id : DefinitionId}
    (h : evaluation.output? = some (.definition id)) :
    target? (command name kind parameters own evaluation) = some id := by
  rw [target?, h]

/-- The definitions that an executed command shows. -/
theorem shownTargets_definition {name : String} {kind : CommandKind} {parameters : List Inline}
    {own : Tags} {id : DefinitionId} :
    shownTargets [command name kind parameters own (.evaluated (.definition id))] = [id] := by
  rw [shownTargets_command, target?_of_output? rfl]
  rfl

theorem shownTargets_parameter {name : String} {kind : CommandKind} {parameters : List Inline}
    {own : Tags} {n : Nat} {i : Inline} (hn : parameters[n]? = some i) :
    shownTargets [command name kind parameters own (.evaluated (.parameter n))] =
      shownTargets [i] := by
  rw [shownTargets_command]
  simp only [Evaluation.shownOf, Evaluation.output?, hn, Option.toList_some]
  rfl

theorem shownTargets_inline {name : String} {kind : CommandKind} {parameters : List Inline}
    {own : Tags} {i : Inline} :
    shownTargets [command name kind parameters own (.evaluated (.inline i))] =
      shownTargets [i] := by
  rw [shownTargets_command]
  rfl

/-- A text depends on no other definitions than those that it shows. -/
theorem segments_mono (i : Inline)
    (h : ∀ t ∈ shownTargets [i], ∀ s, f t = some s → g t = some s) {s : List Segment}
    (hs : segments f enclosing i = some s) : segments g enclosing i = some s := by
  have list : ∀ (l : List Inline) (enclosing : Tags) (s : List Segment),
      (∀ i ∈ l, ∀ s, (∀ t ∈ shownTargets [i], ∀ s, f t = some s → g t = some s) →
        segments f enclosing i = some s → segments g enclosing i = some s) →
      (∀ t ∈ shownTargets l, ∀ s, f t = some s → g t = some s) →
      segmentsList f enclosing l = some s → segmentsList g enclosing l = some s := by
    intro l enclosing s ih h hs
    induction l generalizing s with
    | nil => exact hs
    | cons i l ihl =>
      obtain ⟨first, others, hi, hl, rfl⟩ := segmentsList_cons_eq_some.1 hs
      refine segmentsList_cons_eq_some.2 ⟨first, others, ?_, ?_, rfl⟩
      · exact ih i (by simp) first
          (fun t ht => h t (mem_shownTargets_iff.2 ⟨i, by simp, ht⟩)) hi
      · refine ihl others (fun j hj => ih j (by simp [hj])) (fun t ht => ?_) hl
        obtain ⟨j, hj, ht⟩ := mem_shownTargets_iff.1 ht
        exact h t (mem_shownTargets_iff.2 ⟨j, by simp [hj], ht⟩)
  induction i using induction generalizing enclosing s with
  | run text own => rw [segments_run] at hs ⊢; exact hs
  | span l own ih =>
    rw [segments_span] at hs ⊢
    rw [shownTargets_span] at h
    exact list l _ s (fun i hi _ h hs => ih i hi h hs) h hs
  | command name kind parameters own evaluation ihp ihe =>
    rw [segments_command] at hs ⊢
    rw [shownTargets_command] at h
    rcases ho : evaluation.output? with _ | id | n | j
    · rw [ho] at hs; exact hs
    · rw [ho] at hs
      exact h id (by rw [target?_of_output? ho]; simp) s hs
    all_goals
      rw [ho] at hs
      refine list _ _ s (fun i hi s h hs => ?_) (fun t ht => h t (List.mem_append_right _ ht)) hs
      rcases Evaluation.mem_of_mem_shownOf hi with hp | he
      · exact ihp i hp h hs
      · exact ihe i he h hs

/-- A text ends if those of the definitions that it shows do. -/
theorem segments_isSome (i : Inline) (h : ∀ t ∈ shownTargets [i], (f t).isSome) :
    (segments f enclosing i).isSome := by
  have list : ∀ (l : List Inline) (enclosing : Tags),
      (∀ i ∈ l, (∀ t ∈ shownTargets [i], (f t).isSome) → (segments f enclosing i).isSome) →
      (∀ t ∈ shownTargets l, (f t).isSome) → (segmentsList f enclosing l).isSome := by
    intro l enclosing ih h
    induction l with
    | nil => rw [segmentsList]; rfl
    | cons i l ihl =>
      obtain ⟨first, hi⟩ := Option.isSome_iff_exists.1 <|
        ih i (by simp) fun t ht => h t (mem_shownTargets_iff.2 ⟨i, by simp, ht⟩)
      obtain ⟨others, hl⟩ := Option.isSome_iff_exists.1 <|
        ihl (fun j hj => ih j (by simp [hj])) fun t ht => by
          obtain ⟨j, hj, ht⟩ := mem_shownTargets_iff.1 ht
          exact h t (mem_shownTargets_iff.2 ⟨j, by simp [hj], ht⟩)
      rw [segmentsList_cons_eq_some.2 ⟨first, others, hi, hl, rfl⟩]; rfl
  induction i using induction generalizing enclosing with
  | run text own => rw [segments_run]; rfl
  | span l own ih =>
    rw [segments_span]
    rw [shownTargets_span] at h
    exact list l _ (fun i hi h => ih i hi h) h
  | command name kind parameters own evaluation ihp ihe =>
    rw [segments_command]
    rw [shownTargets_command] at h
    rcases ho : evaluation.output? with _ | id | n | j
    · rfl
    · exact h id (by rw [target?_of_output? ho]; simp)
    all_goals
      refine list _ _ (fun i hi h => ?_) fun t ht => h t (List.mem_append_right _ ht)
      rcases Evaluation.mem_of_mem_shownOf hi with hp | he
      · exact ihp i hp h
      · exact ihe i he h

end Inline

/-! ## Definitions -/

namespace DefinitionKind

/-- The segments of what a definition holds, under the tags in effect at it. -/
def segments (segmentsOf : DefinitionId → Option (List Segment)) (tags? : Option Tags) :
    DefinitionKind → Option (List Segment)
  | .stanza content | .paragraph content => do content.segments segmentsOf (← tags?)
  | .section body => do
    let tags ← tags?
    let title ← body.title.toList.mapM fun title => title.segments segmentsOf tags
    let children ← body.children.mapM segmentsOf
    return [{ text := "\n" }].intercalate (title ++ children)
  | .partReference reference =>
    match reference.target with
    | some target => segmentsOf target
    | none => some []
  | .boolean value => some [{ text := if value then "true" else "false" }]
  | .integer value => some [{ text := toString value }]
  | .multilingual runs => some (Context.valueSegments runs)

/-- The definitions that rendered commands in the texts of a definition stand for. -/
def shownTargets (kind : DefinitionKind) : List DefinitionId :=
  Inline.shownTargets (kind.contents.flatMap Content.inlines)

/-- The definitions that are rendered with a definition. -/
def shownLinks (kind : DefinitionKind) : List DefinitionId :=
  kind.shownTargets ++ (kind.children ++ kind.target?.toList)

theorem mem_shownLinks {kind : DefinitionKind} {y : DefinitionId} :
    y ∈ kind.shownLinks ↔ y ∈ kind.shownTargets ∨ y ∈ kind.children ∨ kind.target? = some y := by
  simp [shownLinks]

theorem mem_shownTargets_of_content {kind : DefinitionKind} {content : Content}
    (hc : content ∈ kind.contents) {t : DefinitionId}
    (ht : t ∈ Inline.shownTargets content.inlines) : t ∈ kind.shownTargets := by
  obtain ⟨i, hi, ht⟩ := Inline.mem_shownTargets_iff.1 ht
  exact Inline.mem_shownTargets_iff.2 ⟨i, List.mem_flatMap.2 ⟨content, hc, hi⟩, ht⟩

/-- Once its commands are handled, a text shows what they show. -/
theorem mem_shownTargets_resolveCommands {kind : DefinitionKind} {inlines : List Inline}
    {t : DefinitionId}
    (h : t ∈ (kind.mapContents fun content => content.resolveCommands inlines).shownTargets) :
    t ∈ Inline.shownTargets inlines := by
  obtain ⟨i, hi, ht⟩ := Inline.mem_shownTargets_iff.1 h
  obtain ⟨content', hcontent, hi⟩ := List.mem_flatMap.1 hi
  obtain ⟨content, -, rfl⟩ := mem_contents_mapContents.1 hcontent
  exact Inline.mem_shownTargets_iff.2 ⟨i, hi, ht⟩

end DefinitionKind

namespace Content

variable {f g : DefinitionId → Option (List Segment)}

theorem segments_eq (segmentsOf : DefinitionId → Option (List Segment)) (tags : Tags)
    (content : Content) :
    content.segments segmentsOf tags = Inline.segmentsList segmentsOf tags content.inlines := by
  rcases content with ⟨source, _ | inlines | inlines⟩
  · rw [segments, inlines, Inline.segmentsList_singleton, Inline.text, Inline.segments_run]
    rfl
  · rfl
  · rfl

theorem segments_mono {tags : Tags} {content : Content}
    (h : ∀ t ∈ Inline.shownTargets content.inlines, ∀ s, f t = some s → g t = some s)
    {s : List Segment} (hs : content.segments f tags = some s) :
    content.segments g tags = some s := by
  rw [segments_eq] at hs ⊢
  have hspan : Inline.segments g tags (.span content.inlines .unset) = some s :=
    Inline.segments_mono _ (by rw [Inline.shownTargets_span]; exact h)
      ((Inline.segments_span _ _).trans hs)
  exact (Inline.segments_span _ _).symm.trans hspan

theorem segments_isSome {tags : Tags} {content : Content}
    (h : ∀ t ∈ Inline.shownTargets content.inlines, (f t).isSome) :
    (content.segments f tags).isSome := by
  rw [segments_eq]
  have hspan : (Inline.segments f tags (.span content.inlines .unset)).isSome :=
    Inline.segments_isSome _ (by rw [Inline.shownTargets_span]; exact h)
  rw [Inline.segments_span] at hspan
  exact hspan

end Content

namespace DefinitionKind

variable {f g : DefinitionId → Option (List Segment)} {tags? : Option Tags}

/-- What a definition stands for depends on no other definitions than those rendered with it. -/
theorem segments_mono {kind : DefinitionKind}
    (h : ∀ y ∈ kind.shownLinks, ∀ s, f y = some s → g y = some s) {s : List Segment}
    (hs : kind.segments f tags? = some s) : kind.segments g tags? = some s := by
  have hcontent : ∀ content ∈ kind.contents, ∀ t ∈ Inline.shownTargets content.inlines,
      ∀ s, f t = some s → g t = some s := fun content hc t ht =>
    h t (mem_shownLinks.2 (Or.inl (mem_shownTargets_of_content hc ht)))
  cases kind with
  | stanza content | paragraph content =>
    simp only [segments, Option.bind_eq_bind, Option.bind_eq_some_iff] at hs ⊢
    obtain ⟨tags, htags, hs⟩ := hs
    exact ⟨tags, htags, Content.segments_mono (hcontent content (by simp [contents])) hs⟩
  | «section» body =>
    simp only [segments, Option.bind_eq_bind, Option.bind_eq_some_iff] at hs ⊢
    obtain ⟨tags, htags, title, htitle, children, hchildren, hs⟩ := hs
    refine ⟨tags, htags, title, mapM_mono (fun content hc s => ?_) htitle, children,
      mapM_mono (fun y hy => ?_) hchildren, hs⟩
    · exact Content.segments_mono (hcontent content hc)
    · exact h y (mem_shownLinks.2 (Or.inr (Or.inl hy)))
  | partReference reference =>
    rcases reference with ⟨key, _ | target⟩
    · exact hs
    · exact h target (mem_shownLinks.2 (Or.inr (Or.inr rfl))) s hs
  | boolean | integer | multilingual => exact hs

/-- What a definition stands for ends if that of the definitions rendered with it does. -/
theorem segments_isSome {kind : DefinitionKind} (htags : tags?.isSome)
    (h : ∀ y ∈ kind.shownLinks, (f y).isSome) : (kind.segments f tags?).isSome := by
  obtain ⟨tags, rfl⟩ := Option.isSome_iff_exists.1 htags
  have hcontent : ∀ content ∈ kind.contents, (content.segments f tags).isSome := fun content hc =>
    Content.segments_isSome fun t ht =>
      h t (mem_shownLinks.2 (Or.inl (mem_shownTargets_of_content hc ht)))
  cases kind with
  | stanza content | paragraph content => exact hcontent content (by simp [contents])
  | «section» body =>
    obtain ⟨title, htitle⟩ := Option.isSome_iff_exists.1 (mapM_isSome hcontent)
    obtain ⟨children, hchildren⟩ := Option.isSome_iff_exists.1
      (mapM_isSome fun y hy => h y (mem_shownLinks.2 (Or.inr (Or.inl hy))))
    rw [contents] at htitle
    rw [DefinitionKind.children] at hchildren
    simp only [segments, Option.bind_eq_bind, Option.bind_some, htitle, hchildren]
    rfl
  | partReference reference =>
    rcases reference with ⟨key, _ | target⟩
    · rfl
    · exact h target (mem_shownLinks.2 (Or.inr (Or.inr rfl)))
  | boolean | integer | multilingual => rfl

end DefinitionKind

namespace Context

variable {c : Context}

/-- One more round of rendering. -/
theorem segmentsWithin_succ (c : Context) (n : Nat) (id : DefinitionId) :
    c.segmentsWithin (n + 1) id =
      (c.definition? id).bind fun d =>
        d.kind.segments (c.segmentsWithin n) (c.effectiveTags? id) := by
  rw [segmentsWithin]
  rcases c.definition? id with _ | ⟨_, _, _, _, _, _, kind⟩
  · rfl
  · cases kind with
    | partReference reference => rcases reference with ⟨key, _ | target⟩ <;> rfl
    | _ => rfl

theorem segmentsWithin_step {n m : Nat}
    (h : ∀ id s, c.segmentsWithin n id = some s → c.segmentsWithin m id = some s) :
    ∀ id s, c.segmentsWithin (n + 1) id = some s → c.segmentsWithin (m + 1) id = some s := by
  intro id s hs
  rw [segmentsWithin_succ, Option.bind_eq_some_iff] at hs ⊢
  obtain ⟨d, hd, hs⟩ := hs
  exact ⟨d, hd, DefinitionKind.segments_mono (fun y _ => h y) hs⟩

/-! ## What texts depend on -/

section
variable {c' : Context} (h : c'.definitions = c.definitions)
include h

theorem tagsWithin_of_definitions_eq (n : Nat) : c'.tagsWithin n = c.tagsWithin n := by
  induction n with
  | zero => rfl
  | succ n ih =>
    funext found id
    simp only [tagsWithin, definition?, h, ih]

/-- Tags in effect depend on the definitions only. -/
theorem effectiveTags?_of_definitions_eq : c'.effectiveTags? = c.effectiveTags? := by
  funext id
  rw [effectiveTags?, effectiveTags?, tagsWithin_of_definitions_eq h, h]

theorem segmentsWithin_of_definitions_eq (n : Nat) : c'.segmentsWithin n = c.segmentsWithin n := by
  induction n with
  | zero => rfl
  | succ n ih =>
    funext id
    simp only [segmentsWithin, definition?, h, ih, effectiveTags?_of_definitions_eq h]

/-- So do texts. -/
theorem segments?_of_definitions_eq : c'.segments? = c.segments? := by
  funext id
  rw [segments?, segments?, segmentsWithin_of_definitions_eq h, h]

end

end Context

/-! ## Rounds -/

section
variable {α : Type} {g : Nat → DefinitionId → Option α} {size : Nat}
  (hstart : ∀ i, g 0 i = none)
  (hstep : ∀ {n m}, (∀ i a, g n i = some a → g m i = some a) →
    ∀ i a, g (n + 1) i = some a → g (m + 1) i = some a)
include hstart hstep

/-- What a recursion gives in some number of rounds it gives in any greater number. -/
theorem rounds_mono {n m : Nat} (hnm : n ≤ m) {i : DefinitionId} {a : α} (h : g n i = some a) :
    g m i = some a := by
  induction n generalizing m i a with
  | zero => rw [hstart] at h; cases h
  | succ n ih =>
    obtain ⟨m, rfl⟩ : ∃ k, m = k + 1 := ⟨m - 1, by omega⟩
    exact hstep (fun i a => ih (by omega)) i a h

/-- **A recursion that has a value for definitions only, and has it in some number of rounds, has
    it in as many rounds as there are definitions.** -/
theorem enough (hfinite : ∀ {n i a}, g n i = some a → i.index < size) {n : Nat}
    {i : DefinitionId} {a : α} (h : g n i = some a) : g size i = some a := by
  classical
  let known (n : Nat) : Finset Nat := (Finset.range size).filter fun k => (g n ⟨k⟩).isSome
  have hmem : ∀ {n i}, i.index ∈ known n ↔ (g n i).isSome := by
    intro n i
    simp only [known, Finset.mem_filter, Finset.mem_range]
    refine ⟨fun h => h.2, fun h => ⟨?_, h⟩⟩
    obtain ⟨a, ha⟩ := Option.isSome_iff_exists.1 h
    exact hfinite ha
  have hsubset : ∀ n, known n ⊆ known (n + 1) := by
    intro n k hk
    obtain ⟨a, ha⟩ := Option.isSome_iff_exists.1 ((hmem (i := ⟨k⟩)).1 hk)
    exact (hmem (i := ⟨k⟩)).2 (by rw [rounds_mono hstart hstep (by omega) ha]; rfl)
  -- a round that finds no new definition is the last one that changes anything
  have hlast : ∀ {m}, known (m + 1) ⊆ known m → ∀ k i a, g (m + k) i = some a → g m i = some a := by
    intro m hm k
    have hback : ∀ i a, g (m + 1) i = some a → g m i = some a := by
      intro i a ha
      obtain ⟨b, hb⟩ := Option.isSome_iff_exists.1 (hmem.1 (hm (hmem.2 (by rw [ha]; rfl))))
      rw [rounds_mono hstart hstep (by omega) hb] at ha
      rw [hb, ha]
    induction k with
    | zero => exact fun i a ha => ha
    | succ k ih => exact fun i a ha => hback i a (hstep ih i a ha)
  obtain ⟨m, hm, hround⟩ : ∃ m ≤ size, known (m + 1) ⊆ known m := by
    by_contra hall
    push Not at hall
    have hcard : ∀ m ≤ size + 1, m ≤ (known m).card := by
      intro m
      induction m with
      | zero => intro _; exact Nat.zero_le _
      | succ m ih =>
        intro hm
        have hlt := Finset.card_lt_card ((hsubset m).ssubset_of_not_subset (hall m (by omega)))
        have := ih (by omega)
        omega
    have htop := hcard (size + 1) le_rfl
    have hle : (known (size + 1)).card ≤ size := by
      simpa using Finset.card_filter_le (Finset.range size) fun k => (g (size + 1) ⟨k⟩).isSome
    omega
  have hround' : g m i = some a := by
    rcases Nat.le_total n m with hnm | hmn
    · exact rounds_mono hstart hstep hnm h
    · obtain ⟨k, rfl⟩ := Nat.exists_eq_add_of_le hmn
      exact hlast hround k i a h
  exact rounds_mono hstart hstep hm hround'

end

namespace Context

variable {c : Context}

theorem segmentsWithin_mono {n m : Nat} (hnm : n ≤ m) {id : DefinitionId} {s : List Segment}
    (h : c.segmentsWithin n id = some s) : c.segmentsWithin m id = some s :=
  rounds_mono (g := c.segmentsWithin) (fun _ => rfl) segmentsWithin_step hnm h

/-- A definition whose text ends in any number of rounds has that text. -/
theorem segments?_of_within {n : Nat} {id : DefinitionId} {s : List Segment}
    (h : c.segmentsWithin n id = some s) : c.segments? id = some s := by
  refine enough (g := c.segmentsWithin) (fun _ => rfl) segmentsWithin_step ?_ h
  intro n id s h
  rcases n with _ | n
  · cases h
  · rw [segmentsWithin_succ, Option.bind_eq_some_iff] at h
    obtain ⟨d, hd, -⟩ := h
    exact index_lt_of_definition? hd

end Context

end Rubric
