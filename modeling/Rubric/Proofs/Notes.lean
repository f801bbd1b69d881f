/-
  Rubric — the footnotes in parsed text.

  An executed footnote is found wherever its command is: in a parameter, in the
  output of the command around it, in the body of another footnote.  These
  places have different tags around them.

  * `Footnote.remap`: a footnote converted inside text with given tags;
  * `Inline.ConvertsNotes tags i`: of the footnotes in the inline, conversion makes
    the same in all places that give the same tags to text with the tags `tags`;
  * **`records_executeList`**: execution inside text with the tags `tags` yields
    such inlines, and the footnotes in them are among those that it gives.
-/
import Rubric.Proofs.CommandPass
import Rubric.Proofs.Remap

namespace Rubric

variable {fonts : FontRegistry} {tags : Tags}

/-! ## Tags -/

namespace Tags

@[simp]
theorem unset_inherit (enclosing : Tags) : unset.inherit enclosing = enclosing := rfl

/-- Taking over once more changes nothing. -/
@[simp]
theorem inherit_inherit (own enclosing : Tags) :
    own.inherit (own.inherit enclosing) = own.inherit enclosing := by
  rcases own with ⟨_ | _, _ | _ | _⟩ <;> rfl

/-- What a language is set on takes over the same font. -/
theorem inherit_language {own enclosing enclosing' : Tags}
    (h : own.inherit enclosing = own.inherit enclosing') (language : Language) :
    { own with language := some language }.inherit enclosing =
      { own with language := some language }.inherit enclosing' := by
  have hfont := congrArg Tags.font h
  simp only [inherit] at hfont ⊢
  rw [hfont]
  rfl

end Tags

/-! ## Footnotes in inlines -/

namespace Inline

theorem footnotes_append (l l' : List Inline) : footnotes (l ++ l') = footnotes l ++ footnotes l' :=
  gather_append footnote? l l'

theorem footnotes_cons (i : Inline) (l : List Inline) :
    footnotes (i :: l) = footnotes [i] ++ footnotes l :=
  footnotes_append [i] l

theorem footnotes_run (text : String) (own : Tags) : footnotes [run text own] = [] :=
  gather_run footnote? text own

theorem footnotes_span (l : List Inline) (own : Tags) : footnotes [span l own] = footnotes l :=
  gather_span footnote? l own

theorem footnotes_command (name : String) (kind : CommandKind) (parameters : List Inline)
    (own : Tags) (evaluation : Evaluation) :
    footnotes [command name kind parameters own evaluation] =
      evaluation.footnote?.toList ++ (footnotes parameters ++ footnotes evaluation.inlines) :=
  gather_command footnote? name kind parameters own evaluation

theorem mem_footnotes_iff {note : Footnote} {l : List Inline} :
    note ∈ footnotes l ↔ ∃ i ∈ l, note ∈ footnotes [i] :=
  mem_gather_iff

end Inline

/-! ## Conversion -/

/-- The footnote converted inside text with the tags `enclosing`. -/
def Footnote.remap (fonts : FontRegistry) (enclosing : Tags) (note : Footnote) : Footnote :=
  { note with body := note.body.remap fonts enclosing }

namespace Inline

theorem footnote?_remapEvaluation (evaluation : Evaluation) :
    (remapEvaluation fonts tags evaluation).footnote? =
      evaluation.footnote?.map (Footnote.remap fonts tags) := by
  cases evaluation <;> rfl

/-- Converted inlines have footnotes of the same numbers. -/
theorem numbers_remapList (fonts : FontRegistry) (tags : Tags) (l : List Inline) :
    (footnotes (remapList fonts tags l)).map Footnote.number =
      (footnotes l).map Footnote.number := by
  have hnumbers : ∀ l, (footnotes l).map Footnote.number =
      gather (fun i => i.footnote?.map Footnote.number) l :=
    fun l => List.map_filterMap ..
  have hkept : ∀ (i : Inline) tags,
      (remap fonts tags i).footnote?.map Footnote.number = i.footnote?.map Footnote.number := by
    intro i tags
    rcases i with _ | _ | ⟨name, kind, parameters, own, evaluation⟩
    · rfl
    · rfl
    · rw [remap_command, footnote?, footnote?, footnote?_remapEvaluation, Option.map_map]
      rfl
  rw [hnumbers, hnumbers, remapList_eq]
  exact gather_map_eq fun i _ => gather_remap hkept i

/-- In any two places that give the same tags to text with the tags `tags`, conversion makes the
    same of the footnotes in the inline. -/
def ConvertsNotes (tags : Tags) (i : Inline) : Prop :=
  ∀ (fonts : FontRegistry) {place place' : Tags}, tags.inherit place = tags.inherit place' →
    footnotes [i.remap fonts place] = (footnotes [i]).map (Footnote.remap fonts place')

/-- Where there are no footnotes, conversion makes none. -/
theorem ConvertsNotes.of_footnotes_eq_nil {i : Inline} (h : footnotes [i] = []) (tags : Tags) :
    i.ConvertsNotes tags := by
  intro fonts place place' _
  have hnumbers := numbers_remapList fonts place [i]
  rw [remapList_eq, List.map_singleton, h, List.map_nil, List.map_eq_nil_iff] at hnumbers
  rw [hnumbers, h, List.map_nil]

theorem ConvertsNotes.list {l : List Inline} (h : ∀ i ∈ l, i.ConvertsNotes tags)
    {place place' : Tags} (hplace : tags.inherit place = tags.inherit place') :
    footnotes (l.map (remap fonts place)) = (footnotes l).map (Footnote.remap fonts place') := by
  induction l with
  | nil => rfl
  | cons i l ih =>
    rw [List.map_cons, footnotes_cons, footnotes_cons i l, List.map_append,
      h i (by simp) fonts hplace, ih fun j hj => h j (by simp [hj])]

/-- Conversion makes the same of the footnotes in the inline wherever that is, and they are among
    the given ones. -/
structure Records (tags : Tags) (notes : List Footnote) (i : Inline) : Prop where
  converts : i.ConvertsNotes tags
  recorded : ∀ note ∈ footnotes [i], note ∈ notes

variable {notes more : List Footnote}

theorem Records.mono {i : Inline} (h : i.Records tags notes) (hmore : notes ⊆ more) :
    i.Records tags more :=
  ⟨h.converts, fun note hnote => hmore (h.recorded note hnote)⟩

theorem records_run (text : String) (own : Tags) : (run text own).Records tags notes :=
  ⟨fun _ _ _ _ => footnotes_run _ _, by simp [footnotes_run]⟩

/-- A span whose own tags the text around has already taken over. -/
theorem records_span {l : List Inline} {own : Tags}
    (hown : ∀ place, tags.inherit (own.inherit place) = tags.inherit place)
    (h : ∀ i ∈ l, i.Records tags notes) : (span l own).Records tags notes := by
  refine ⟨fun fonts place place' hplace => ?_, fun note hnote => ?_⟩
  · rw [remap_span, footnotes_span, footnotes_span]
    exact ConvertsNotes.list (fun i hi => (h i hi).converts) ((hown place).trans hplace)
  · rw [footnotes_span] at hnote
    obtain ⟨i, hi, hnote⟩ := mem_footnotes_iff.1 hnote
    exact (h i hi).recorded note hnote

/-- A command that sets no tags; the body of its footnote has those of the text around. -/
theorem records_command {name : String} {kind : CommandKind} {parameters : List Inline}
    {evaluation : Evaluation} (hparameters : ∀ i ∈ parameters, i.Records tags notes)
    (hinlines : ∀ i ∈ evaluation.inlines, i.Records tags notes)
    (hnote : ∀ note ∈ evaluation.footnote?, note ∈ notes ∧ ∃ l, note.body = span l tags) :
    (command name kind parameters .unset evaluation).Records tags notes := by
  refine ⟨fun fonts place place' hplace => ?_, fun note hmem => ?_⟩
  · have hnote : (remapEvaluation fonts place evaluation).footnote? =
        evaluation.footnote?.map (Footnote.remap fonts place') := by
      rw [footnote?_remapEvaluation]
      refine Option.map_congr fun note hmem => ?_
      obtain ⟨-, l, hl⟩ := hnote note hmem
      rw [Footnote.remap, Footnote.remap, hl, remap_span, remap_span, hplace]
    rw [remap_command, footnotes_command, footnotes_command, inlines_remapEvaluation,
      Tags.unset_inherit, ConvertsNotes.list (fun i hi => (hparameters i hi).converts) hplace,
      ConvertsNotes.list (fun i hi => (hinlines i hi).converts) hplace, hnote, List.map_append,
      List.map_append]
    cases evaluation.footnote? <;> rfl
  · rw [footnotes_command, List.mem_append, List.mem_append, Option.mem_toList] at hmem
    rcases hmem with hmem | hmem | hmem
    · exact (hnote note hmem).1
    · obtain ⟨i, hi, hmem⟩ := mem_footnotes_iff.1 hmem
      exact (hparameters i hi).recorded note hmem
    · obtain ⟨i, hi, hmem⟩ := mem_footnotes_iff.1 hmem
      exact (hinlines i hi).recorded note hmem

/-- A command with no footnote of its own. -/
theorem records_evaluated {name : String} {kind : CommandKind} {parameters : List Inline}
    {output : Output} (hparameters : ∀ i ∈ parameters, i.Records tags notes)
    (houtput : ∀ i ∈ output.inlines, i.Records tags notes) :
    (command name kind parameters .unset (.evaluated output)).Records tags notes :=
  records_command hparameters houtput (by simp [Evaluation.footnote?])

theorem IsFresh.records {i : Inline} (h : i.IsFresh) : i.Records tags notes := by
  induction i using induction with
  | run text own => exact records_run text own
  | span l own ih =>
    obtain ⟨rfl, hl⟩ := isFresh_span.1 h
    exact records_span (fun _ => rfl) fun i hi => ih i hi (hl i hi)
  | command name kind parameters own evaluation ih _ =>
    obtain ⟨rfl, rfl, hparameters⟩ := isFresh_command.1 h
    exact records_command (fun i hi => ih i hi (hparameters i hi))
      (by simp [Evaluation.inlines]) (by simp [Evaluation.footnote?])

/-- Text in a language of its own stands behind the parameters and in the output, where the
    language is set. -/
theorem Records.language {i : Inline} {language : Language}
    (h : i.Records { tags with language := some language } notes) : i.Records tags notes :=
  ⟨fun fonts _ _ hplace => h.converts fonts (Tags.inherit_language hplace language), h.recorded⟩

/-! ## Execution -/

section
variable {handle : DefinitionId → Engine Unit} {c c' : Context}

/-- What a command with executed parameters becomes records their footnotes and its own. -/
theorem records_effects {call : Invocation} {kind : CommandKind} {ps : List Inline}
    {effect : Effect} (hps : ∀ i ∈ ps, i.Records call.tags notes)
    (h : Invocation.Effects handle call c kind ps effect c') (name : String) :
    (command name kind ps .unset (.of effect.output effect.footnote)).Records call.tags
      (notes ++ effect.footnote.toList) := by
  have hps' : ∀ i ∈ ps, i.Records call.tags (notes ++ effect.footnote.toList) :=
    fun i hi => (hps i hi).mono (List.subset_append_left _ _)
  have hlines : ∀ {notes} {separator : Inline} {lines : List Inline},
      separator.Records call.tags notes → (∀ i ∈ lines, i.Records call.tags notes) →
        (span (lines.intersperse separator) .unset).Records call.tags notes := by
    intro notes separator lines hseparator hl
    refine records_span (fun _ => rfl) fun i hi => ?_
    rcases mem_of_mem_intersperse hi with rfl | hi
    · exact hseparator
    · exact hl i hi
  cases h with
  | definition | sharedBoolean | newBoolean =>
    exact records_evaluated hps' (by simp [Output.inlines, Effect.definition])
  | value | text =>
    refine records_evaluated hps' fun i hi => ?_
    rw [List.mem_singleton.1 hi]
    exact records_run _ _
  | lines =>
    refine records_evaluated hps' fun i hi => ?_
    rw [List.mem_singleton.1 hi]
    exact hlines (hps' _ (by simp)) fun i hi => hps' i (by simp [hi])
  | defaultLines _ _ hseparator =>
    refine records_evaluated hps' fun i hi => ?_
    rw [List.mem_singleton.1 hi]
    refine hlines ?_ fun i hi => hps' i (by simp [hi])
    obtain ⟨text, own, rfl⟩ := hseparator.eq_run
    exact records_run text own
  | @footnote annotated body number =>
    refine records_command hps' ?_ ?_
    · intro i hi
      rcases List.mem_cons.1 hi with rfl | hi
      · refine records_span (fun _ => rfl) fun i hi => ?_
        rcases List.mem_append.1 hi with hi | hi
        · exact hps' i (by simp [hi])
        · rw [List.mem_singleton.1 hi]
          exact records_run _ _
      · rw [List.mem_singleton.1 hi]
        refine records_span (Tags.inherit_inherit _) fun i hi => ?_
        rw [List.mem_singleton.1 hi]
        exact hps' body (by simp)
    · rintro note ⟨⟩
      exact ⟨by simp, _, rfl⟩

/-- **Executed inlines record the footnotes that execution gives.**  The notes in fresh inlines,
    once these are executed, are among those given, and wherever they stand, conversion makes
    the same of them. -/
theorem records_executeList {scope : Scope} {l l' : List Inline} (hl : ∀ i ∈ l, i.IsFresh)
    (h : (executeList handle scope tags l).Gives c (.ok (l', notes)) c') :
    ∀ i ∈ l', i.Records tags notes := by
  have hrules : ExecutionRules handle scope
      (fun tags i _ i' notes _ => i.IsFresh → i'.Records tags notes)
      (fun tags l _ l' notes _ => (∀ i ∈ l, i.IsFresh) → ∀ i ∈ l', i.Records tags notes) := by
    refine ⟨?run, ?span, ?executed, ?ternary, ?language, ?command, ?nil, ?cons⟩
    case run =>
      intro tags text own c _
      exact records_run text own
    case span =>
      intro tags l own c l' notes c' ih hfresh
      obtain ⟨rfl, hl⟩ := isFresh_span.1 hfresh
      exact records_span (fun _ => rfl) (ih hl)
    case executed =>
      intro tags name kind parameters own evaluation c he hfresh
      exact absurd (isFresh_command.1 hfresh).2.1 he
    case ternary =>
      intro tags name condition yes no own c condition' notes c₁ value chosen more c' ihc _ ihb
        hfresh
      obtain ⟨rfl, -, hfresh⟩ := isFresh_command.1 hfresh
      have hyes : yes.IsFresh := hfresh yes (by simp)
      have hno : no.IsFresh := hfresh no (by simp)
      have hcondition := (ihc (hfresh _ (by simp))).mono (List.subset_append_left notes more)
      have hchosen := (ihb (by cases value <;> assumption)).mono
        (List.subset_append_right notes more)
      refine records_evaluated (fun i hi => ?_) (by simp [Output.inlines])
      simp only [List.mem_cons, List.not_mem_nil, or_false] at hi
      rcases hi with rfl | rfl | rfl
      · exact hcondition
      · cases value
        · exact hyes.records
        · exact hchosen
      · cases value
        · exact hchosen
        · exact hno.records
    case language =>
      intro tags name tag body own c tag' notes c₁ language body' more c' iht ihb hfresh
      obtain ⟨rfl, -, hfresh⟩ := isFresh_command.1 hfresh
      have htag := (iht (hfresh _ (by simp))).mono (List.subset_append_left notes more)
      have hbody := (ihb (hfresh _ (by simp))).mono (List.subset_append_right notes more)
      refine records_evaluated (fun i hi => ?_) fun i hi => ?_
      · simp only [List.mem_cons, List.not_mem_nil, or_false] at hi
        rcases hi with rfl | rfl
        · exact htag
        · exact hbody.language
      · rw [List.mem_singleton.1 hi]
        have hspan : (span [body'] { language := some language }).Records
            { tags with language := some language } (notes ++ more) := by
          refine records_span (fun place => rfl) fun i hi => ?_
          rw [List.mem_singleton.1 hi]
          exact hbody
        exact hspan.language
    case command =>
      intro tags name kind parameters own c parameters' notes c₁ effect c' _ ih hrun hfresh
      obtain ⟨rfl, -, hfresh⟩ := isFresh_command.1 hfresh
      exact records_effects (ih hfresh) (Invocation.effects_of_run hrun) name
    case nil =>
      intro tags c _
      simp
    case cons =>
      intro tags i l c i' notes c₁ l' more c' ihi ihl hfresh j hj
      rcases List.mem_cons.1 hj with rfl | hj
      · exact (ihi (hfresh _ (by simp))).mono (List.subset_append_left notes more)
      · exact (ihl (fun j hj => hfresh j (by simp [hj])) j hj).mono
          (List.subset_append_right notes more)
  exact hrules.inlines h hl

end

end Inline

end Rubric
