/-
  Rubric — induction on parsed text, and the inlines that are rendered.

  * `Inline.induction`: a property of all inlines, from that of the parts of a
    span and of the parameters, the output and the footnote of a command;
  * `Inline.shown i`: the inline and those in it whose text is part of its
    text; a parameter is if the command stands for it;
  * `Inline.IsExecuted`: no command in a rendered place is pending;
  * `Inline.gather f l`: what `f` reads off the inlines and those in them, such as
    the definitions that commands stand for;
  * `Inline.IsFresh`: nothing is executed, and no tags are set; `Inline.IsIdle`:
    nothing is executed.
-/
import Rubric.Inline.Nested

namespace Rubric

/-! ## Parts -/

/-- The inline that an output holds. -/
def Output.inlines : Output → List Inline
  | .inline i => [i]
  | .definition _ | .parameter _ => []

namespace Evaluation

/-- The inlines that an evaluation holds: that of the output and the body of the footnote. -/
def inlines : Evaluation → List Inline
  | .pending => []
  | .evaluated output => output.inlines
  | .noted output _ body => output.inlines ++ [body]

/-- The inline that a command with the given parameters stands for, if it stands for one. -/
def shownOf (parameters : List Inline) (evaluation : Evaluation) : List Inline :=
  match evaluation.output? with
  | some (.parameter i) => parameters[i]?.toList
  | some (.inline i) => [i]
  | some (.definition _) | none => []

theorem mem_of_mem_shownOf {parameters : List Inline} {evaluation : Evaluation} {i : Inline}
    (h : i ∈ evaluation.shownOf parameters) : i ∈ parameters ∨ i ∈ evaluation.inlines := by
  rcases evaluation with _ | ⟨_ | n | _⟩ | ⟨_ | n | _, _, _⟩ <;>
    simp [shownOf, output?, inlines, Output.inlines] at h ⊢
  case evaluated.parameter => exact List.mem_of_getElem? h
  case noted.parameter => exact Or.inl (List.mem_of_getElem? h)
  all_goals simp [h]

end Evaluation

namespace Inline

/-- The evaluation of a command; no other inline is ever executed. -/
def evaluation : Inline → Evaluation
  | command _ _ _ _ evaluation => evaluation
  | run _ _ | span _ _ => .pending

/-- A command that is not executed. -/
def IsPending (i : Inline) : Prop :=
  ∃ name kind parameters own, i = command name kind parameters own .pending

/-! ## Induction -/

/-- A property of all inlines, from that of the inlines in them. -/
@[elab_as_elim]
theorem induction {P : Inline → Prop} (run : ∀ text own, P (.run text own))
    (span : ∀ inlines own, (∀ i ∈ inlines, P i) → P (.span inlines own))
    (command : ∀ name kind parameters own evaluation, (∀ i ∈ parameters, P i) →
      (∀ i ∈ evaluation.inlines, P i) → P (.command name kind parameters own evaluation)) :
    ∀ i, P i := by
  intro i
  refine @Inline.rec P (fun evaluation => ∀ i ∈ evaluation.inlines, P i)
    (fun output => ∀ i ∈ output.inlines, P i) (fun l => ∀ i ∈ l, P i) run span
    (fun _ _ _ _ _ hp he => command _ _ _ _ _ hp he) ?_ ?_ ?_ ?_ ?_ ?_ ?_ ?_ i
  · simp [Evaluation.inlines]
  · intro output h; exact h
  · intro output _ body ho hb i hi
    rcases List.mem_append.1 hi with hi | hi
    · exact ho i hi
    · rw [List.mem_singleton.1 hi]; exact hb
  · simp [Output.inlines]
  · simp [Output.inlines]
  · intro inline h i hi; rw [List.mem_singleton.1 hi]; exact h
  · simp
  · intro i l hi hl j hj
    rcases List.mem_cons.1 hj with rfl | hj
    · exact hi
    · exact hl j hj

/-! ## Inlines in an inline -/

theorem nestedList_eq : ∀ l : List Inline, nestedList l = l.flatMap nested
  | [] => rfl
  | i :: l => by rw [nestedList, nestedList_eq l, List.flatMap_cons]

theorem nestedOutput_eq (output : Output) : nestedOutput output = nestedList output.inlines := by
  cases output <;> simp [nestedOutput, Output.inlines, nestedList]

theorem nestedEvaluation_eq (evaluation : Evaluation) :
    nestedEvaluation evaluation = nestedList evaluation.inlines := by
  cases evaluation <;>
    simp [nestedEvaluation, Evaluation.inlines, nestedOutput_eq, nestedList_eq]

theorem nested_span (l : List Inline) (own : Tags) :
    nested (span l own) = span l own :: nestedList l := by
  rw [nested]

theorem nested_command (name : String) (kind : CommandKind) (parameters : List Inline)
    (own : Tags) (evaluation : Evaluation) :
    nested (command name kind parameters own evaluation) =
      command name kind parameters own evaluation ::
        nestedList (parameters ++ evaluation.inlines) := by
  rw [nested, nestedEvaluation_eq]; simp [nestedList_eq]

theorem mem_nestedList {j : Inline} {l : List Inline} :
    j ∈ nestedList l ↔ ∃ i ∈ l, j ∈ i.nested := by
  rw [nestedList_eq, List.mem_flatMap]

theorem mem_nested_span {j : Inline} {l : List Inline} {own : Tags} :
    j ∈ (span l own).nested ↔ j = span l own ∨ j ∈ nestedList l := by
  rw [nested_span, List.mem_cons]

theorem mem_nested_command {j : Inline} {name : String} {kind : CommandKind}
    {parameters : List Inline} {own : Tags} {evaluation : Evaluation} :
    j ∈ (command name kind parameters own evaluation).nested ↔
      j = command name kind parameters own evaluation ∨ j ∈ nestedList parameters ∨
        j ∈ nestedList evaluation.inlines := by
  rw [nested_command, List.mem_cons, nestedList_eq, List.flatMap_append, List.mem_append,
    nestedList_eq, nestedList_eq]

theorem self_mem_nested (i : Inline) : i ∈ i.nested := by
  cases i <;> simp [nested]

/-! ## Rendered inlines -/

mutual

/-- The inline and all inlines in it that are rendered with it. -/
def shown : Inline → List Inline
  | run text own => [run text own]
  | span inlines own => span inlines own :: shownList inlines
  | command name kind parameters own evaluation =>
    command name kind parameters own evaluation ::
      shownEvaluation (fun i => shownAt i parameters) evaluation

/-- The inlines of a list and all inlines that are rendered with them. -/
def shownList : List Inline → List Inline
  | [] => []
  | inline :: rest => inline.shown ++ shownList rest

/-- The inlines rendered with the one at a place in a list. -/
def shownAt : Nat → List Inline → List Inline
  | _, [] => []
  | 0, inline :: _ => inline.shown
  | i + 1, _ :: rest => shownAt i rest

/-- The inlines rendered for an executed command. -/
def shownEvaluation (ofParameter : Nat → List Inline) : Evaluation → List Inline
  | .pending => []
  | .evaluated output => shownOutput ofParameter output
  | .noted output _ _ => shownOutput ofParameter output

/-- The inlines rendered for an output. -/
def shownOutput (ofParameter : Nat → List Inline) : Output → List Inline
  | .definition _ => []
  | .parameter i => ofParameter i
  | .inline inline => inline.shown

end

theorem shownList_eq : ∀ l : List Inline, shownList l = l.flatMap shown
  | [] => by simp [shownList]
  | i :: l => by rw [shownList, shownList_eq l, List.flatMap_cons]

theorem shownAt_eq : ∀ (n : Nat) (l : List Inline), shownAt n l = shownList l[n]?.toList
  | _, [] => by simp [shownAt, shownList]
  | 0, i :: l => by simp [shownAt, shownList]
  | n + 1, i :: l => by rw [shownAt, shownAt_eq n l, List.getElem?_cons_succ]

theorem shown_span (l : List Inline) (own : Tags) :
    shown (span l own) = span l own :: shownList l := by
  rw [shown]

theorem shown_command (name : String) (kind : CommandKind) (parameters : List Inline)
    (own : Tags) (evaluation : Evaluation) :
    shown (command name kind parameters own evaluation) =
      command name kind parameters own evaluation ::
        shownList (evaluation.shownOf parameters) := by
  rw [shown]
  rcases evaluation with _ | ⟨_ | n | _⟩ | ⟨_ | n | _, _, _⟩ <;>
    simp [shownEvaluation, shownOutput, Evaluation.shownOf, Evaluation.output?, shownAt_eq,
      shownList]

theorem mem_shownList {j : Inline} {l : List Inline} :
    j ∈ shownList l ↔ ∃ i ∈ l, j ∈ i.shown := by
  rw [shownList_eq, List.mem_flatMap]

/-- What is rendered with an inline is in it. -/
theorem shown_subset_nested (i : Inline) : ∀ j ∈ i.shown, j ∈ i.nested := by
  induction i using induction with
  | run text own => simp [shown, nested]
  | span l own ih =>
    intro j hj
    rw [shown_span, List.mem_cons, mem_shownList] at hj
    rw [nested_span, List.mem_cons, mem_nestedList]
    rcases hj with rfl | ⟨i, hi, hj⟩
    · exact Or.inl rfl
    · exact Or.inr ⟨i, hi, ih i hi j hj⟩
  | command name kind parameters own evaluation ihp ihe =>
    intro j hj
    rw [shown_command, List.mem_cons, mem_shownList] at hj
    rw [nested_command, List.mem_cons, mem_nestedList]
    rcases hj with rfl | ⟨i, hi, hj⟩
    · exact Or.inl rfl
    · rcases Evaluation.mem_of_mem_shownOf hi with hi | hi
      · exact Or.inr ⟨i, List.mem_append_left _ hi, ihp i hi j hj⟩
      · exact Or.inr ⟨i, List.mem_append_right _ hi, ihe i hi j hj⟩

theorem shownList_subset_nestedList {j : Inline} {l : List Inline} (h : j ∈ shownList l) :
    j ∈ nestedList l := by
  obtain ⟨i, hi, hj⟩ := mem_shownList.1 h
  exact mem_nestedList.2 ⟨i, hi, shown_subset_nested i j hj⟩

/-- No command in a rendered place is pending. -/
def IsExecuted (i : Inline) : Prop :=
  ∀ j ∈ i.shown, ¬ j.IsPending

theorem isExecuted_run (text : String) (own : Tags) : (run text own).IsExecuted := by
  rintro j hj ⟨_, _, _, _, rfl⟩; simp [shown] at hj

theorem isExecuted_span {l : List Inline} {own : Tags} :
    (span l own).IsExecuted ↔ ∀ i ∈ l, i.IsExecuted := by
  simp only [IsExecuted, shown_span, List.mem_cons, mem_shownList]
  constructor
  · intro h i hi j hj; exact h j (Or.inr ⟨i, hi, hj⟩)
  · rintro h j (rfl | ⟨i, hi, hj⟩)
    · rintro ⟨_, _, _, _, h⟩; cases h
    · exact h i hi j hj

theorem isExecuted_command {name : String} {kind : CommandKind} {parameters : List Inline}
    {own : Tags} {evaluation : Evaluation} :
    (command name kind parameters own evaluation).IsExecuted ↔
      evaluation.output?.isSome ∧ ∀ i ∈ evaluation.shownOf parameters, i.IsExecuted := by
  simp only [IsExecuted, shown_command, List.mem_cons, mem_shownList]
  constructor
  · intro h
    refine ⟨?_, fun i hi j hj => h j (Or.inr ⟨i, hi, hj⟩)⟩
    cases evaluation with
    | pending => exact absurd ⟨_, _, _, _, rfl⟩ (h _ (Or.inl rfl))
    | evaluated | noted => rfl
  · rintro ⟨ho, h⟩ j (rfl | ⟨i, hi, hj⟩)
    · rintro ⟨_, _, _, _, h⟩; cases h; simp [Evaluation.output?] at ho
    · exact h i hi j hj

/-! ## Gathering -/

section
variable {α : Type} (f : Inline → Option α)

/-- What `f` reads off the inlines and those in them. -/
def gather (l : List Inline) : List α :=
  (nestedList l).filterMap f

variable {f}

theorem mem_gather {a : α} {l : List Inline} :
    a ∈ gather f l ↔ ∃ j ∈ nestedList l, f j = some a := by
  simp [gather]

theorem mem_gather_iff {a : α} {l : List Inline} :
    a ∈ gather f l ↔ ∃ i ∈ l, a ∈ gather f [i] := by
  simp only [mem_gather, mem_nestedList, List.mem_singleton, exists_eq_left]
  constructor
  · rintro ⟨j, ⟨i, hi, hj⟩, ha⟩; exact ⟨i, hi, j, hj, ha⟩
  · rintro ⟨i, hi, j, hj, ha⟩; exact ⟨j, ⟨i, hi, hj⟩, ha⟩

variable (f)

theorem gather_append (l l' : List Inline) : gather f (l ++ l') = gather f l ++ gather f l' := by
  simp [gather, nestedList_eq]

theorem gather_run (text : String) (own : Tags) :
    gather f [run text own] = (f (run text own)).toList := by
  simp only [gather, nestedList, nested, List.append_nil, List.filterMap_cons]
  cases f (run text own) <;> rfl

theorem gather_span (l : List Inline) (own : Tags) :
    gather f [span l own] = (f (span l own)).toList ++ gather f l := by
  simp only [gather, nestedList, nested_span, List.append_nil, List.filterMap_cons]
  cases f (span l own) <;> rfl

theorem gather_command (name : String) (kind : CommandKind) (parameters : List Inline)
    (own : Tags) (evaluation : Evaluation) :
    gather f [command name kind parameters own evaluation] =
      (f (command name kind parameters own evaluation)).toList ++
        (gather f parameters ++ gather f evaluation.inlines) := by
  rw [← gather_append]
  simp only [gather, nestedList, nested_command, List.append_nil, List.filterMap_cons]
  cases f (command name kind parameters own evaluation) <;> rfl

end

/-! ## Definitions that are stood for -/

theorem mem_targets {id : DefinitionId} {l : List Inline} :
    id ∈ targets l ↔ ∃ j ∈ nestedList l, j.target? = some id :=
  mem_gather

theorem forall_targets {p : DefinitionId → Prop} {l : List Inline} :
    (∀ t ∈ targets l, p t) ↔ ∀ j ∈ nestedList l, ∀ t, j.target? = some t → p t := by
  constructor
  · exact fun h j hj t ht => h t (mem_targets.2 ⟨j, hj, ht⟩)
  · intro h t ht
    obtain ⟨j, hj, ht⟩ := mem_targets.1 ht
    exact h j hj t ht

/-- The definitions that rendered commands in the inlines stand for. -/
def shownTargets (l : List Inline) : List DefinitionId :=
  (shownList l).filterMap target?

theorem mem_shownTargets {id : DefinitionId} {l : List Inline} :
    id ∈ shownTargets l ↔ ∃ j ∈ shownList l, j.target? = some id := by
  simp [shownTargets]

theorem targets_of_shownTargets {id : DefinitionId} {l : List Inline} (h : id ∈ shownTargets l) :
    id ∈ targets l := by
  obtain ⟨j, hj, ht⟩ := mem_shownTargets.1 h
  exact mem_targets.2 ⟨j, shownList_subset_nestedList hj, ht⟩

theorem targets_run (text : String) (own : Tags) : targets [run text own] = [] :=
  gather_run target? text own

theorem targets_span (l : List Inline) (own : Tags) : targets [span l own] = targets l :=
  gather_span target? l own

theorem targets_command (name : String) (kind : CommandKind) (parameters : List Inline)
    (own : Tags) (evaluation : Evaluation) :
    targets [command name kind parameters own evaluation] =
      (target? (command name kind parameters own evaluation)).toList ++
        (targets parameters ++ targets evaluation.inlines) :=
  gather_command target? name kind parameters own evaluation

theorem target?_mem_targets {i : Inline} {id : DefinitionId} (h : i.target? = some id) :
    id ∈ targets [i] := by
  rcases i with _ | _ | ⟨name, kind, ps, own, evaluation⟩
  case command =>
    rw [targets_command, h]
    exact List.mem_cons_self ..
  all_goals cases h

theorem mem_targets_iff {id : DefinitionId} {l : List Inline} :
    id ∈ targets l ↔ ∃ i ∈ l, id ∈ targets [i] :=
  mem_gather_iff

/-! ## Fresh inlines -/

/-- Nothing in the inline is executed, and no tags are set in it. -/
def IsFresh (i : Inline) : Prop :=
  ∀ j ∈ i.nested, j.tags = .unset ∧ j.evaluation = .pending

theorem isFresh_text (s : String) : (text s).IsFresh := by
  simp [IsFresh, nested, Inline.text, tags, evaluation]

theorem isFresh_span {l : List Inline} {own : Tags} :
    (span l own).IsFresh ↔ own = .unset ∧ ∀ i ∈ l, i.IsFresh := by
  simp only [IsFresh, nested_span, List.mem_cons, mem_nestedList]
  constructor
  · intro h
    exact ⟨(h _ (Or.inl rfl)).1, fun i hi j hj => h j (Or.inr ⟨i, hi, hj⟩)⟩
  · rintro ⟨rfl, h⟩ j (rfl | ⟨i, hi, hj⟩)
    · exact ⟨rfl, rfl⟩
    · exact h i hi j hj

theorem isFresh_command {name : String} {kind : CommandKind} {parameters : List Inline}
    {own : Tags} {evaluation : Evaluation} :
    (command name kind parameters own evaluation).IsFresh ↔
      own = .unset ∧ evaluation = .pending ∧ ∀ i ∈ parameters, i.IsFresh := by
  simp only [IsFresh, nested_command, List.mem_cons, mem_nestedList, List.mem_append]
  constructor
  · intro h
    obtain ⟨ho, he⟩ := h _ (Or.inl rfl)
    exact ⟨ho, he, fun i hi j hj => h j (Or.inr ⟨i, Or.inl hi, hj⟩)⟩
  · rintro ⟨rfl, rfl, h⟩ j (rfl | ⟨i, hi | hi, hj⟩)
    · exact ⟨rfl, rfl⟩
    · exact h i hi j hj
    · simp [Evaluation.inlines] at hi

/-! ## Idle inlines -/

/-- Nothing in the inline is executed. -/
def IsIdle (i : Inline) : Prop :=
  ∀ j ∈ i.nested, j.evaluation = .pending

theorem IsFresh.isIdle {i : Inline} (h : i.IsFresh) : i.IsIdle :=
  fun j hj => (h j hj).2

theorem target?_of_pending {j : Inline} (h : j.evaluation = .pending) : j.target? = none := by
  rcases j with _ | _ | ⟨_, _, _, _, evaluation⟩
  · rfl
  · rfl
  · obtain rfl : evaluation = .pending := h
    rfl

theorem footnote?_of_pending {j : Inline} (h : j.evaluation = .pending) : j.footnote? = none := by
  rcases j with _ | _ | ⟨_, _, _, _, evaluation⟩
  · rfl
  · rfl
  · obtain rfl : evaluation = .pending := h
    rfl

theorem isIdle_span {l : List Inline} {own : Tags} :
    (span l own).IsIdle ↔ ∀ i ∈ l, i.IsIdle := by
  simp only [IsIdle, mem_nested_span, mem_nestedList]
  constructor
  · exact fun h i hi j hj => h j (Or.inr ⟨i, hi, hj⟩)
  · rintro h j (rfl | ⟨i, hi, hj⟩)
    · rfl
    · exact h i hi j hj

theorem isIdle_command {name : String} {kind : CommandKind} {parameters : List Inline}
    {own : Tags} {evaluation : Evaluation} :
    (command name kind parameters own evaluation).IsIdle ↔
      evaluation = .pending ∧ ∀ i ∈ parameters, i.IsIdle := by
  simp only [IsIdle, mem_nested_command, mem_nestedList]
  constructor
  · exact fun h => ⟨h _ (Or.inl rfl), fun i hi j hj => h j (Or.inr (Or.inl ⟨i, hi, hj⟩))⟩
  · rintro ⟨rfl, h⟩ j (rfl | ⟨i, hi, hj⟩ | ⟨i, hi, hj⟩)
    · rfl
    · exact h i hi j hj
    · cases hi

namespace IsIdle

variable {i : Inline} (h : i.IsIdle)
include h

/-- Nothing is read off an idle inline that is not there before execution. -/
theorem gather_eq_nil {α : Type} {f : Inline → Option α}
    (hf : ∀ j : Inline, j.evaluation = .pending → f j = none) : gather f [i] = [] := by
  rw [List.eq_nil_iff_forall_not_mem]
  intro a ha
  obtain ⟨j, hj, ha⟩ := mem_gather.1 ha
  simp only [nestedList, List.append_nil] at hj
  rw [hf j (h j hj)] at ha
  cases ha

theorem targets_eq_nil : targets [i] = [] :=
  h.gather_eq_nil fun _ => target?_of_pending

end IsIdle

theorem IsFresh.targets_eq_nil {i : Inline} (h : i.IsFresh) : targets [i] = [] :=
  h.isIdle.targets_eq_nil

end Inline

end Rubric
