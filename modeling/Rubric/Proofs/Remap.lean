/-
  Rubric — what converting the fonts of an inline keeps.

  * `targets_map_remap`, `isExecuted_remap`: conversion changes neither the
    definitions that commands stand for nor which commands are executed;
  * **`remap_remap`**: what is converted once is not converted again.
-/
import Rubric.Proofs.Inline
import Rubric.Resolution.Fonts

namespace Rubric

variable {fonts : FontRegistry} {tags : Tags}

/-! ## Settled tags -/

/-- A run with settled tags is not typed in any font. -/
theorem Tags.typedFont?_settled (own enclosing : Tags) :
    ((own.settled enclosing).inherit enclosing).typedFont? = none := by
  rcases own with ⟨ol, _ | _ | _⟩ <;> rcases enclosing with ⟨el, _ | _ | _⟩ <;>
    rcases ol with _ | ol <;> rcases el with _ | el <;>
    simp [settled, inherit, typedFont?, isTransliterated, fontName?] <;> grind

theorem Tags.settled_settled (own enclosing : Tags) :
    (own.settled enclosing).settled enclosing = own.settled enclosing := by
  rcases own with ⟨ol, _ | _ | _⟩ <;> rcases enclosing with ⟨el, _ | _ | _⟩ <;>
    rcases ol with _ | ol <;> rcases el with _ | el <;>
    simp [settled, inherit, isTransliterated, fontName?] <;> grind

/-! ## Equations -/

/-- An output with its inline in Unicode. -/
theorem inlines_remapOutput (output : Output) :
    (Inline.remapOutput fonts tags output).inlines =
      output.inlines.map (Inline.remap fonts tags) := by
  cases output <;> rfl

namespace Inline

theorem remapList_eq (l : List Inline) : remapList fonts tags l = l.map (remap fonts tags) := by
  induction l with
  | nil => rfl
  | cons i l ih => rw [remapList, ih, List.map_cons]

theorem inlines_remapEvaluation (evaluation : Evaluation) :
    (remapEvaluation fonts tags evaluation).inlines =
      evaluation.inlines.map (remap fonts tags) := by
  cases evaluation <;>
    simp [remapEvaluation, Evaluation.inlines, inlines_remapOutput]

theorem remap_span (l : List Inline) (own : Tags) :
    remap fonts tags (span l own) = span (l.map (remap fonts (own.inherit tags))) own := by
  rw [remap, remapList_eq]

theorem remap_command (name : String) (kind : CommandKind) (parameters : List Inline) (own : Tags)
    (evaluation : Evaluation) :
    remap fonts tags (command name kind parameters own evaluation) =
      command name kind (parameters.map (remap fonts (own.inherit tags))) own
        (remapEvaluation fonts (own.inherit tags) evaluation) := by
  rw [remap, remapList_eq]

/-- What the output of a converted command stands for. -/
theorem output?_remapEvaluation (evaluation : Evaluation) :
    (remapEvaluation fonts tags evaluation).output? =
      evaluation.output?.map (remapOutput fonts tags) := by
  cases evaluation <;> rfl

theorem shownOf_remapEvaluation (parameters : List Inline) (evaluation : Evaluation) :
    (remapEvaluation fonts tags evaluation).shownOf (parameters.map (remap fonts tags)) =
      (evaluation.shownOf parameters).map (remap fonts tags) := by
  unfold Evaluation.shownOf
  rw [output?_remapEvaluation]
  rcases evaluation.output? with _ | _ | i | i
  · rfl
  · rfl
  · simp only [Option.map_some, remapOutput, List.getElem?_map]
    cases parameters[i]? <;> rfl
  · rfl

/-! ## What conversion keeps -/

theorem target?_remap (i : Inline) : (remap fonts tags i).target? = i.target? := by
  rcases i with _ | _ | ⟨name, kind, parameters, own, evaluation⟩
  · rfl
  · rfl
  · rw [remap_command]
    simp only [target?, output?_remapEvaluation]
    rcases evaluation.output? with _ | _ | _ | _ <;> rfl

/-- What is in a converted inline is the conversion of something that is in the inline. -/
theorem mem_nested_remap {i j : Inline} (h : j ∈ (remap fonts tags i).nested) :
    ∃ k ∈ i.nested, ∃ tags', j = remap fonts tags' k := by
  have list : ∀ {l : List Inline} {tags : Tags},
      (∀ i ∈ l, ∀ {tags}, j ∈ (remap fonts tags i).nested →
        ∃ k ∈ i.nested, ∃ tags', j = remap fonts tags' k) →
      j ∈ nestedList (l.map (remap fonts tags)) →
        ∃ k ∈ nestedList l, ∃ tags', j = remap fonts tags' k := by
    intro l tags ih hj
    obtain ⟨i', hi', hj⟩ := mem_nestedList.1 hj
    obtain ⟨i, hi, rfl⟩ := List.mem_map.1 hi'
    obtain ⟨k, hk, hjk⟩ := ih i hi hj
    exact ⟨k, mem_nestedList.2 ⟨i, hi, hk⟩, hjk⟩
  induction i using induction generalizing tags with
  | run text own =>
    simp only [remap, FontRegistry.remapRun, nested, List.mem_singleton] at h
    exact ⟨_, self_mem_nested _, tags, h⟩
  | span l own ih =>
    rw [remap_span] at h
    rcases mem_nested_span.1 h with rfl | hj
    · exact ⟨_, self_mem_nested _, tags, (remap_span l own).symm⟩
    · obtain ⟨k, hk, hjk⟩ := list ih hj
      exact ⟨k, mem_nested_span.2 (Or.inr hk), hjk⟩
  | command name kind parameters own evaluation ihp ihe =>
    rw [remap_command] at h
    rcases mem_nested_command.1 h with rfl | hj | hj
    · exact ⟨_, self_mem_nested _, tags, (remap_command name kind parameters own evaluation).symm⟩
    · obtain ⟨k, hk, hjk⟩ := list ihp hj
      exact ⟨k, mem_nested_command.2 (Or.inr (Or.inl hk)), hjk⟩
    · rw [inlines_remapEvaluation] at hj
      obtain ⟨k, hk, hjk⟩ := list ihe hj
      exact ⟨k, mem_nested_command.2 (Or.inr (Or.inr hk)), hjk⟩

/-- Conversion executes nothing. -/
theorem IsIdle.remap {i : Inline} (h : i.IsIdle) : (i.remap fonts tags).IsIdle := by
  intro j hj
  obtain ⟨k, hk, tags', rfl⟩ := mem_nested_remap hj
  have hpending := h k hk
  rcases k with _ | _ | ⟨name, kind, parameters, own, evaluation⟩
  · rfl
  · rfl
  · obtain rfl : evaluation = .pending := hpending
    rfl

/-- What is read off a list stays when each inline is replaced by one with the same in it. -/
theorem gather_map_eq {α : Type} {f : Inline → Option α} {g : Inline → Inline} {l : List Inline}
    (h : ∀ i ∈ l, gather f [g i] = gather f [i]) : gather f (l.map g) = gather f l := by
  induction l with
  | nil => rfl
  | cons i l ih =>
    have hl := ih fun j hj => h j (by simp [hj])
    calc gather f (g i :: l.map g)
      _ = gather f [g i] ++ gather f (l.map g) := gather_append f [_] _
      _ = gather f [i] ++ gather f l := by rw [h i (by simp), hl]
      _ = gather f (i :: l) := (gather_append f [i] l).symm

/-- Conversion keeps what is read off an inline, if it keeps what is read off each one in it. -/
theorem gather_remap {α : Type} {f : Inline → Option α}
    (hf : ∀ (i : Inline) tags, f (remap fonts tags i) = f i) (i : Inline) :
    gather f [remap fonts tags i] = gather f [i] := by
  induction i using induction generalizing tags with
  | run text own =>
    rw [gather_run, ← hf (run text own) tags]
    exact gather_run f _ _
  | span l own ih =>
    have hspan := hf (span l own) tags
    rw [remap_span] at hspan ⊢
    rw [gather_span, gather_span, hspan, gather_map_eq fun i hi => ih i hi]
  | command name kind parameters own evaluation ihp ihe =>
    have hcommand := hf (command name kind parameters own evaluation) tags
    rw [remap_command] at hcommand ⊢
    rw [gather_command, gather_command, hcommand, inlines_remapEvaluation,
      gather_map_eq fun i hi => ihp i hi, gather_map_eq fun i hi => ihe i hi]

/-- Conversion keeps the definitions that commands stand for. -/
theorem targets_map_remap (l : List Inline) : targets (l.map (remap fonts tags)) = targets l :=
  gather_map_eq fun i _ => gather_remap (fun i _ => target?_remap i) i

/-- Conversion keeps executed what is executed. -/
theorem isExecuted_remap {i : Inline} (h : i.IsExecuted) : (remap fonts tags i).IsExecuted := by
  induction i using induction generalizing tags with
  | run text own => exact isExecuted_run _ _
  | span l own ih =>
    rw [isExecuted_span] at h
    rw [remap_span, isExecuted_span]
    intro j hj
    obtain ⟨i, hi, rfl⟩ := List.mem_map.1 hj
    exact ih i hi (h i hi)
  | command name kind parameters own evaluation ihp ihe =>
    rw [isExecuted_command] at h
    rw [remap_command, isExecuted_command, output?_remapEvaluation, shownOf_remapEvaluation]
    refine ⟨by simpa using h.1, ?_⟩
    intro j hj
    obtain ⟨i, hi, rfl⟩ := List.mem_map.1 hj
    rcases Evaluation.mem_of_mem_shownOf hi with hp | he
    · exact ihp i hp (h.2 i hi)
    · exact ihe i he (h.2 i hi)

/-- **What is converted once is not converted again.** -/
theorem remap_remap (i : Inline) : remap fonts tags (remap fonts tags i) = remap fonts tags i := by
  have list : ∀ {l : List Inline} {tags : Tags},
      (∀ i ∈ l, ∀ tags, remap fonts tags (remap fonts tags i) = remap fonts tags i) →
        (l.map (remap fonts tags)).map (remap fonts tags) = l.map (remap fonts tags) := by
    intro l tags h
    rw [List.map_map]
    exact List.map_congr_left fun i hi => h i hi tags
  induction i using induction generalizing tags with
  | run text own =>
    simp only [remap, FontRegistry.remapRun, Tags.typedFont?_settled, Tags.settled_settled,
      FontRegistry.normalizeSegment]
  | span l own ih => rw [remap_span, remap_span, list fun i hi _ => ih i hi]
  | command name kind parameters own evaluation ihp ihe =>
    have houtput : ∀ output : Output, (∀ i ∈ output.inlines, ∀ tags : Tags,
        remap fonts tags (remap fonts tags i) = remap fonts tags i) → ∀ tags : Tags,
          remapOutput fonts tags (remapOutput fonts tags output) =
            remapOutput fonts tags output := by
      intro output h tags
      rcases output with _ | _ | i
      · rfl
      · rfl
      · simp only [remapOutput]
        rw [h i (by simp [Output.inlines])]
    have hevaluation : remapEvaluation fonts (own.inherit tags)
        (remapEvaluation fonts (own.inherit tags) evaluation) =
          remapEvaluation fonts (own.inherit tags) evaluation := by
      rcases evaluation with _ | output | ⟨output, number, body⟩
      · rfl
      · simp only [remapEvaluation]
        rw [houtput output fun i hi _ => ihe i hi]
      · simp only [remapEvaluation]
        rw [houtput output fun i hi _ => ihe i (List.mem_append_left _ hi),
          ihe body (by simp [Evaluation.inlines])]
    rw [remap_command, remap_command, list fun i hi _ => ihp i hi, hevaluation]

end Inline

end Rubric
