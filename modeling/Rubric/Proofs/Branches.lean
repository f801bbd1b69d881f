/-
  Rubric — the branch that is not selected.

  A ternary command goes into one of its branches.  The other one stays in its
  place, among the parameters, where text, targets and footnotes are looked for
  later.  Nothing that is done or found there depends on it.

  * `Invocation.Selects`: the value of a condition, executed where the command stands;
  * `InPlace.choose_congr`: the branch that is not selected is not executed;
  * `Inline.decided`: a ternary command when it is executed, and what is read off it;
  * `Inline.IsDecided`: every executed ternary command in a text is one of these, and
    nothing is executed in its other branch;
  * **`unselected_branch`**: ternary commands that differ in that branch only cannot be
    told apart.
-/
import Rubric.Proofs.InPlace
import Rubric.Proofs.Nested

namespace Rubric

open Context

variable {c c' c₁ : Context} {handle : DefinitionId → Engine Unit} {call : Invocation}
  {scope : Scope} {name : String} {own tags : Tags} {value : Bool}
  {condition yes no yes' no' selected other : Inline}

/-! ## Selection -/

/-- The condition of the command, executed where the command stands, has the value. -/
def Invocation.Selects (handle : DefinitionId → Engine Unit) (call : Invocation)
    (condition : Inline) (c : Context) (value : Bool) : Prop :=
  ∃ condition' notes c₁,
    (condition.execute handle call.scope call.tags).Gives c (.ok (condition', notes)) c₁ ∧
    (call.conditionValue condition').Gives c₁ (.ok value) c₁

namespace InPlace

/-- A value that the choice is made by is selected by the condition. -/
theorem selects_of_executeInPlace {p : Progress Inline} {c₂ : Context}
    (hcondition : condition.executeInPlace handle call.scope call.tags c = some (p, c₁))
    (hok : p.result = .ok ())
    (hvalue : (call.conditionValue p.place).answer? c₁ = some (.ok value, c₂)) :
    call.Selects handle condition c value := by
  obtain ⟨rfl, -⟩ := Invocation.gives_conditionValue_ok hvalue
  refine ⟨p.place, p.notes, c₂, ?_, hvalue⟩
  rw [← Inline.settle_executeInPlace, Engine.Gives, answer?_settle, hcondition]
  change some (p.result.map _, c₂) = _
  rw [hok]
  rfl

/-- The branch that is not selected is not executed. -/
theorem choose_congr {x : InPlace Inline} {valueOf : Inline → Engine Bool}
    {branch branch' : Bool → InPlace Inline}
    (h : ∀ p c₁ value c₂, x c = some (p, c₁) → p.result = .ok () →
      (valueOf p.place).answer? c₁ = some (.ok value, c₂) → branch value = branch' value) :
    choose x valueOf branch c = choose x valueOf branch' c := by
  unfold choose andThen ask
  rcases hx : x c with _ | ⟨⟨place, notes, _ | ⟨⟨⟩⟩⟩, c₁⟩
  · rfl
  · rfl
  · simp only [Option.bind_some]
    rcases hvalue : (valueOf place).answer? c₁ with _ | ⟨_ | value, c₂⟩
    · rfl
    · rfl
    · simp only [Option.bind_some]
      rw [h _ c₁ value c₂ hx rfl hvalue]

/-- The whole, with errors that pass through the frame. -/
theorem within_map {α β : Type} (frame : Frame) (g : α → β) (x : InPlace α) :
    ((x.map g).within frame) c = (x c).map fun (p, c₁) =>
      ({ p with place := g p.place, result := p.result.mapError fun e => e.within frame }, c₁) := by
  rw [within, map]
  rcases x c with _ | _ <;> rfl

/-- A branch is gone into for the value of the condition, and it is what the command stands for
    if there is no error. -/
theorem of_choose {x : InPlace Inline} {valueOf : Inline → Engine Bool}
    {branch : Bool → InPlace Inline} {p : Progress Choice}
    (h : choose x valueOf branch c = some (p, c')) :
    (∀ value i, p.place.chosen = some (value, i) → ∃ q c₁ c₂, x c = some (q, c₁) ∧
      q.result = .ok () ∧ (valueOf q.place).answer? c₁ = some (.ok value, c₂)) ∧
    (p.result = .ok () → ∃ value i, p.place.chosen = some (value, i) ∧
      p.place.evaluation = .evaluated (.parameter (if value then 1 else 2))) := by
  obtain ⟨⟨⟨place, notes, _ | ⟨⟨⟩⟩⟩, c₁⟩, hx, h⟩ := Option.bind_eq_some_iff.1 h
  · -- the condition has failed
    cases h
    exact ⟨by rintro _ _ ⟨⟩, by rintro ⟨⟩⟩
  · obtain ⟨⟨q, c₃⟩, hq, h⟩ := Option.map_eq_some_iff.1 h
    obtain ⟨⟨_ | value, c₂⟩, hvalue, hq⟩ := Option.bind_eq_some_iff.1 hq
    · -- it has no value
      cases hq
      cases h
      exact ⟨by rintro _ _ ⟨⟩, by rintro ⟨⟩⟩
    · obtain ⟨⟨⟨i, more, _ | ⟨⟨⟩⟩⟩, c₄⟩, -, hq⟩ := Option.bind_eq_some_iff.1 hq
      · -- the branch has failed, and stays where it was gone into
        cases hq
        cases h
        exact ⟨by rintro _ _ ⟨⟩; exact ⟨_, c₁, c₂, hx, rfl, hvalue⟩, by rintro ⟨⟩⟩
      · cases hq
        cases h
        exact ⟨by rintro _ _ ⟨⟩; exact ⟨_, c₁, c₂, hx, rfl, hvalue⟩, fun _ => ⟨value, i, rfl, rfl⟩⟩

end InPlace

/-! ## Executed ternary commands -/

namespace Inline

/-- A ternary command that is executed: the branch for its value is `selected`. -/
def decided (name : String) (own : Tags) (condition : Inline) (value : Bool)
    (selected other : Inline) : Inline :=
  command name .ternary
    [condition, if value then selected else other, if value then other else selected] own
    (.evaluated (.parameter (if value then 1 else 2)))

/-- The text of the command is that of the selected branch. -/
theorem segments_decided {segmentsOf : DefinitionId → Option (List Segment)} :
    (decided name own condition value selected other).segments segmentsOf tags =
      selected.segments segmentsOf (own.inherit tags) := by
  cases value <;>
    simp [decided, segments, segmentsEvaluation, segmentsOutput, segmentsAt]

theorem remap_decided {fonts : FontRegistry} :
    (decided name own condition value selected other).remap fonts tags =
      decided name own (condition.remap fonts (own.inherit tags)) value
        (selected.remap fonts (own.inherit tags)) (other.remap fonts (own.inherit tags)) := by
  rw [decided, remap_command]
  cases value <;> rfl

/-- In every context and inside every text, the two inlines have the same texts. -/
def ReadsAlike (i j : Inline) : Prop :=
  ∀ (c : Context) tags, c.inlineText? i = c.inlineText? j ∧
    c.normalizedInlineText? tags i = c.normalizedInlineText? tags j

theorem readsAlike_decided {other' : Inline} :
    (decided name own condition value selected other).ReadsAlike
      (decided name own condition value selected other') := by
  intro c tags
  simp only [inlineText?, normalizedInlineText?, inlineSegments?, segments_decided, and_self]

/-- What is read off the command is what is read off its condition and the selected branch. -/
theorem gather_decided {α : Type} {f : Inline → Option α}
    (hf : ∀ j : Inline, j.evaluation = .pending → f j = none) (ho : other.IsIdle)
    (hnone : f (decided name own condition value selected other) = none) :
    gather f [decided name own condition value selected other] =
      gather f [condition, selected] := by
  have hcons : ∀ i l, gather f (i :: l) = gather f [i] ++ gather f l :=
    fun i l => gather_append f [i] l
  have hother : gather f [other] = [] := ho.gather_eq_nil hf
  have hparameters : gather f [condition, if value then selected else other,
      if value then other else selected] = gather f [condition, selected] := by
    refine (hcons condition _).trans (.trans (congrArg _ ?_) (hcons condition [selected]).symm)
    cases value
    · change gather f [other, selected] = gather f [selected]
      rw [hcons, hother, List.nil_append]
    · change gather f [selected, other] = gather f [selected]
      rw [hcons, hother, List.append_nil]
  rw [decided] at hnone ⊢
  rw [gather_command, hnone, hparameters]
  exact List.append_nil _

theorem targets_decided (ho : other.IsIdle) :
    targets [decided name own condition value selected other] = targets [condition, selected] :=
  gather_decided (fun _ => target?_of_pending) ho rfl

theorem footnotes_decided (ho : other.IsIdle) :
    footnotes [decided name own condition value selected other] =
      footnotes [condition, selected] :=
  gather_decided (fun _ => footnote?_of_pending) ho rfl

/-- A ternary command that is executed. -/
def isExecutedTernary : Inline → Bool
  | command _ .ternary _ _ evaluation => evaluation.output?.isSome
  | _ => false

theorem exists_of_isExecutedTernary {i : Inline} (h : i.isExecutedTernary = true) :
    ∃ name ps own evaluation, i = command name .ternary ps own evaluation ∧
      evaluation ≠ .pending := by
  unfold isExecutedTernary at h
  split at h
  · exact ⟨_, _, _, _, rfl, by rintro rfl; cases h⟩
  · cases h

/-- If the inline is an executed ternary command, then one of its branches is selected, and
    nothing is executed in the other. -/
def IsDecided (i : Inline) : Prop :=
  i.isExecutedTernary = true → ∃ name own condition value selected other, other.IsIdle ∧
    i = decided name own condition value selected other

theorem isExecutedTernary_remap {fonts : FontRegistry} (i : Inline) :
    (i.remap fonts tags).isExecutedTernary = i.isExecutedTernary := by
  rcases i with _ | _ | ⟨name, kind, ps, own, evaluation⟩
  · rfl
  · rfl
  · rw [remap_command]
    cases kind <;> cases evaluation <;> rfl

theorem IsDecided.remap {fonts : FontRegistry} {i : Inline} (h : i.IsDecided) :
    (i.remap fonts tags).IsDecided := by
  intro hi
  rw [isExecutedTernary_remap] at hi
  obtain ⟨name, own, condition, value, selected, other, ho, rfl⟩ := h hi
  exact ⟨name, own, _, value, _, _, ho.remap, remap_decided⟩

/-- Execution decides ternary commands. -/
theorem isDecided_law (handle : DefinitionId → Engine Unit) (scope : Scope) :
    CommandLaw handle scope (fun _ => True) (fun _ => True) Recalls fun _ j => j.IsDecided := by
  refine ⟨?pending, fun _ h => h, ?ternary, ?language, ?command⟩
  case pending =>
    intro c j hj h
    obtain ⟨_, _, _, _, rfl, he⟩ := exists_of_isExecutedTernary h
    exact absurd hj he
  case ternary =>
    intro c name condition yes no own value ho _
    refine ⟨name, own, condition, value, if value then yes else no, _, ho.isIdle, ?_⟩
    cases value <;> rfl
  case language =>
    rintro c name tag body own language ⟨⟩
  case command =>
    intro c c' name kind ps own tags effect _ _ _ heffects h
    obtain ⟨_, _, _, _, hkind, -⟩ := exists_of_isExecutedTernary h
    obtain rfl : kind = .ternary := by cases hkind; rfl
    -- of the kinds that execute their parameters first, only those of text are left open
    cases heffects with
    | text hmem => simp at hmem

end Inline

theorem Context.textLaw_isDecided : TextLaw fun _ _ content =>
    ∀ j ∈ Inline.nestedList content.inlines, j.IsDecided :=
  Inline.CommandLaw.textLaw (fun _ _ _ => Inline.isDecided_law _ _)
    fun _ _ h => h.remap

/-- What was gone into is what the command stands for, if the choice was made. -/
theorem Choice.place_made {q : Choice} (hchosen : q.chosen = some (value, selected))
    (hmade : q.evaluation = .evaluated (.parameter (if value then 1 else 2))) :
    q.place name own yes no =
      Inline.decided name own q.condition value selected (if value then no else yes) := by
  obtain ⟨condition, chosen, evaluation⟩ := q
  obtain rfl : chosen = some (value, selected) := hchosen
  obtain rfl : evaluation = .evaluated (.parameter (if value then 1 else 2)) := hmade
  cases value <;> rfl

/-! ## Two runs -/

namespace Inline

/-- A ternary command that is not executed. -/
def undecided (name : String) (own : Tags) (condition yes no : Inline) : Inline :=
  command name .ternary [condition, yes, no] own .pending

/-- A ternary command is executed by one choice, which the branches are put around. -/
theorem executeInPlace_undecided :
    (undecided name own condition yes no).executeInPlace handle scope tags =
      .within (.command name)
        ((InPlace.choose (condition.executeInPlace handle scope (own.inherit tags))
          (Invocation.conditionValue { name, scope, tags := own.inherit tags }) fun value =>
            (if value then yes else no).executeInPlace handle scope (own.inherit tags)).map
          (Choice.place name own yes no)) := by
  rw [undecided, executeInPlace]
  refine congrArg (fun f => InPlace.within _ (InPlace.map _ (InPlace.choose _ _ f))) ?_
  funext value
  cases value <;> rfl

/-- With the same selected branch, two ternary commands are executed by the same choice. -/
theorem executeInPlace_undecided_congr
    (h : ∀ value, Invocation.Selects handle { name, scope, tags := own.inherit tags } condition c
      value → (if value then yes else no) = if value then yes' else no') :
    ((undecided name own condition yes no).executeInPlace handle scope tags c = none ∧
      (undecided name own condition yes' no').executeInPlace handle scope tags c = none) ∨
    ∃ (q : Choice) (notes : List Footnote) (result : Except Error Unit) (c' : Context),
      (undecided name own condition yes no).executeInPlace handle scope tags c =
        some ({ place := q.place name own yes no, notes, result }, c') ∧
      (undecided name own condition yes' no').executeInPlace handle scope tags c =
        some ({ place := q.place name own yes' no', notes, result }, c') ∧
      (∀ value i, q.chosen = some (value, i) →
        Invocation.Selects handle { name, scope, tags := own.inherit tags } condition c value) ∧
      (result = .ok () → ∃ value i, q.chosen = some (value, i) ∧
        q.evaluation = .evaluated (.parameter (if value then 1 else 2))) := by
  have hsame : InPlace.choose (condition.executeInPlace handle scope (own.inherit tags))
        (Invocation.conditionValue { name, scope, tags := own.inherit tags }) (fun value =>
          (if value then yes else no).executeInPlace handle scope (own.inherit tags)) c =
      InPlace.choose (condition.executeInPlace handle scope (own.inherit tags))
        (Invocation.conditionValue { name, scope, tags := own.inherit tags }) (fun value =>
          (if value then yes' else no').executeInPlace handle scope (own.inherit tags)) c :=
    InPlace.choose_congr fun p c₁ value c₂ hcondition hok hvalue => by
      rw [h value (InPlace.selects_of_executeInPlace hcondition hok hvalue)]
  rw [executeInPlace_undecided, executeInPlace_undecided, InPlace.within_map, InPlace.within_map,
    ← hsame]
  rcases hx : InPlace.choose _ _ _ c with _ | ⟨⟨q, notes, result⟩, c'⟩
  · exact Or.inl ⟨rfl, rfl⟩
  · obtain ⟨hchosen, hmade⟩ := InPlace.of_choose hx
    refine Or.inr ⟨q, notes, _, c', rfl, rfl, fun value i hq => ?_, fun hok => ?_⟩
    · obtain ⟨p, c₁, c₂, hcondition, hok, hvalue⟩ := hchosen value i hq
      exact InPlace.selects_of_executeInPlace hcondition hok hvalue
    · exact hmade (Engine.mapError_eq_ok.1 hok)

end Inline

/-- **The branch that is not selected has no influence.**  Two ternary commands, where they stand,
    that have the same branch for the value of their condition end both or neither, with the same
    error or none, the same footnotes and the same context; only the selected branch is changed.
    If there is no error, what they have become reads alike, converted or not, and the font pass
    finds in it the targets and the footnotes of the condition and of the selected branch, if
    nothing in the other one is executed.  In the texts of reachable contexts nothing ever is.  The
    texts of definitions that are added by hand are unread, or copies of such texts
    (`Context.IsReachable`). -/
theorem unselected_branch :
    (∀ {handle : DefinitionId → Engine Unit} {scope : Scope} {tags : Tags} {name : String}
      {own : Tags} {condition yes no yes' no' : Inline} {c : Context},
      (∀ value, Invocation.Selects handle { name, scope, tags := own.inherit tags } condition c
        value → (if value then yes else no) = if value then yes' else no') →
      ((Inline.undecided name own condition yes no).executeInPlace handle scope tags c = none ∧
        (Inline.undecided name own condition yes' no').executeInPlace handle scope tags c = none) ∨
      ∃ (q : Choice) (notes : List Footnote) (result : Except Error Unit) (c' : Context),
        (Inline.undecided name own condition yes no).executeInPlace handle scope tags c =
          some ({ place := q.place name own yes no, notes, result }, c') ∧
        (Inline.undecided name own condition yes' no').executeInPlace handle scope tags c =
          some ({ place := q.place name own yes' no', notes, result }, c') ∧
        (∀ value selected, q.chosen = some (value, selected) →
          Invocation.Selects handle { name, scope, tags := own.inherit tags } condition c value) ∧
        (result = .ok () → ∃ value selected, q.chosen = some (value, selected) ∧
          q.place name own yes no = .decided name own q.condition value selected
            (if value then no else yes) ∧
          q.place name own yes' no' = .decided name own q.condition value selected
            (if value then no' else yes'))) ∧
    (∀ (handle : DefinitionId → Engine Unit) (scope : Scope) (tags : Tags) (i : Inline),
      (i.executeInPlace handle scope tags).settle = i.execute handle scope tags) ∧
    (∀ (name : String) (own : Tags) (condition : Inline) (value : Bool)
      (selected other other' : Inline) (fonts : FontRegistry) (tags : Tags),
      (Inline.decided name own condition value selected other).ReadsAlike
        (.decided name own condition value selected other') ∧
      ((Inline.decided name own condition value selected other).remap fonts tags).ReadsAlike
        ((Inline.decided name own condition value selected other').remap fonts tags) ∧
      (other.IsIdle →
        Inline.targets [.decided name own condition value selected other] =
          Inline.targets [condition, selected] ∧
        Inline.footnotes
            [(Inline.decided name own condition value selected other).remap fonts tags] =
          Inline.footnotes (Inline.remapList fonts (own.inherit tags) [condition, selected]))) ∧
    ∀ {c : Context}, c.IsReachable → ∀ x d, c.definition? x = some d →
      ∀ content ∈ d.kind.contents, ∀ j ∈ Inline.nestedList content.inlines, j.IsDecided := by
  refine ⟨fun h => ?runs, fun _ _ tags i => Inline.settle_executeInPlace i tags,
    fun name own condition value selected other other' fonts tags => ⟨?alike, ?converted, ?fonts⟩,
    fun hc => textLaw_isDecided.of_isReachable (fun h => h) hc⟩
  case runs =>
    rcases Inline.executeInPlace_undecided_congr h with
      hnone | ⟨q, notes, result, c', hrun, hrun', hchosen, hmade⟩
    · exact Or.inl hnone
    · refine Or.inr ⟨q, notes, result, c', hrun, hrun', hchosen, fun hok => ?_⟩
      obtain ⟨value, selected, hselected, hevaluation⟩ := hmade hok
      exact ⟨value, selected, hselected, Choice.place_made hselected hevaluation,
        Choice.place_made hselected hevaluation⟩
  case alike => exact Inline.readsAlike_decided
  case converted =>
    rw [Inline.remap_decided, Inline.remap_decided]
    exact Inline.readsAlike_decided
  case fonts =>
    intro ho
    refine ⟨Inline.targets_decided ho, ?_⟩
    rw [Inline.remap_decided, Inline.footnotes_decided ho.remap]
    rfl

/-- The condition `true` selects the first branch, here a footnote; that the other one would fail
    makes no difference.  There is an executed ternary command in a text of a reachable context,
    and nothing in its other branch is executed. -/
theorem unselected_branch_of_true :
    (∃ (footnote fails : Inline) (p p' : Progress Inline) (c' : Context),
      (Inline.undecided "if" .unset (.text "true") footnote fails).executeInPlace
        (Engine.handleCommands 2) ⟨⟨0⟩, none⟩ .unset (.new {}) = some (p, c') ∧
      (Inline.undecided "if" .unset (.text "true") footnote (.text "x")).executeInPlace
        (Engine.handleCommands 2) ⟨⟨0⟩, none⟩ .unset (.new {}) = some (p', c') ∧
      p.result = .ok () ∧ p'.result = .ok () ∧ p.notes = p'.notes ∧ p.notes.length = 1 ∧
      Inline.targets [.decided "if" .unset (.text "true") true footnote fails] =
        Inline.targets [.text "true", footnote]) ∧
    ∃ c : Context, c.IsReachable ∧ ∃ d, c.definition? ⟨1⟩ = some d ∧ ∃ content ∈ d.kind.contents,
      ∃ name own condition value selected other, other.IsIdle ∧
        .decided name own condition value selected other ∈ Inline.nestedList content.inlines := by
  let footnote := Inline.command "footnote" .footnote [.text "x"] .unset .pending
  let fails := Inline.command "def" .definition [.text "missing"] .unset .pending
  let edits := [Edit.addDocument "d" "D", .addVersion ⟨0⟩ (.ofKnown .coptic) none,
    .addStanza ⟨0⟩ none "\\if\x7btrue|x|\\def\x7bmissing\x7d\x7d"]
  let c := edits.foldl Edit.apply (.new {})
  let c' := (Call.commands ⟨0⟩).run 3 c
  have hselects : ∀ value, Invocation.Selects (Engine.handleCommands 2)
      { name := "if", scope := ⟨⟨0⟩, none⟩, tags := Tags.unset.inherit .unset } (.text "true")
      (.new {}) value → (if value then footnote else fails) =
        if value then footnote else .text "x" := by
    rintro (_ | _) ⟨condition', notes, c₁, hcondition, hvalue⟩
    · rw [Inline.text, Inline.execute] at hcondition
      obtain ⟨hr, rfl⟩ := Engine.gives_pure.1 hcondition
      cases hr
      exact absurd (congrArg (Option.map Prod.fst) hvalue) (by decide +kernel)
    · rfl
  have hidle : fails.IsIdle := by
    refine Inline.isIdle_command.2 ⟨rfl, fun i hi => ?_⟩
    rw [List.mem_singleton.1 hi]
    exact (Inline.isFresh_text _).isIdle
  have hc' : c'.IsReachable := .call ((IsReachable.new {}).edits (by decide +kernel))
    (Call.ends_run (by decide +kernel))
  obtain ⟨d, hd, content, hcontent, j, hj, hmade⟩ :
      ∃ d ∈ c'.definition? ⟨1⟩, ∃ content ∈ d.kind.contents,
        ∃ j ∈ Inline.nestedList content.inlines, j.isExecutedTernary = true := by
    decide +kernel
  obtain ⟨⟨p, c₁⟩, hp, hok, hnotes⟩ :
      ∃ p ∈ (Inline.undecided "if" .unset (.text "true") footnote fails).executeInPlace
          (Engine.handleCommands 2) ⟨⟨0⟩, none⟩ .unset (.new {}),
        p.1.result = .ok () ∧ p.1.notes.length = 1 := by
    decide +kernel
  obtain ⟨hruns, -, hread, htexts⟩ := unselected_branch
  refine ⟨?_, c', hc', d, hd, content, hcontent, ?_⟩
  · obtain ⟨hnone, -⟩ | ⟨q, notes, result, c₂, hrun, hrun', -⟩ := hruns hselects
    · cases hp.symm.trans hnone
    · cases hp.symm.trans hrun
      exact ⟨footnote, fails, _, _, _, hp, hrun', hok, hok, rfl, hnotes,
        ((hread _ _ _ _ _ fails fails .empty .unset).2.2 hidle).1⟩
  · obtain ⟨name, own, condition, value, selected, other, ho, rfl⟩ :=
      htexts hc' _ d hd content hcontent j hj hmade
    exact ⟨name, own, condition, value, selected, other, ho, hj⟩

end Rubric
