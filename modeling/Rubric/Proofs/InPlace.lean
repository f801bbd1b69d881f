/-
  Rubric — execution where the commands stand.

  `Inline.execute` gives the executed text, or an error.  A text that is executed
  where it stands is also there when execution has failed: what was executed up
  to then is executed, the rest is as it was.

  * `InPlace α`: a computation that changes something where it stands; `settle`
    forgets what stands there after an error;
  * `Inline.executeInPlace`: execution in this way; `settle_executeInPlace`: if it
    succeeds it is `Inline.execute`, and if it fails it fails in the same way;
  * `Inline.Fills i j`: `j` is `i` with evaluations filled in where there were none;
    `Inline.unexecuted`: the inline without its evaluations;
  * **`fills_once`**: execution only fills evaluations in, and once at that; what is
    handled is what was read.
-/
import Rubric.Proofs.Texts

namespace Rubric

open Context

/-! ## Changes in place -/

/-- What stands in a place now, the footnotes that were made there, and how the computation that
    changes the place has ended. -/
structure Progress (α : Type) where
  place : α
  notes : List Footnote := []
  result : Except Error Unit := .ok ()

/-- A computation on a context that changes something where it stands.  Like every computation it
    has no answer where it does not end. -/
def InPlace (α : Type) :=
  Context → Option (Progress α × Context)

namespace InPlace

variable {α β γ : Type}

/-- The change is complete. -/
def done (a : α) (notes : List Footnote) : InPlace α :=
  fun c => some ({ place := a, notes }, c)

/-- Changes a part, then goes on with the changed part.  If the part fails, `stay` puts it where
    it stands as far as it has come. -/
def andThen (x : InPlace α) (stay : α → β) (f : α → InPlace β) : InPlace β :=
  fun c => (x c).bind fun (p, c₁) => match p.result with
    | .ok () => (f p.place c₁).map fun (q, c₂) => ({ q with notes := p.notes ++ q.notes }, c₂)
    | .error e => some ({ place := stay p.place, notes := p.notes, result := .error e }, c₁)

/-- Goes on with what a computation gives that changes nothing here.  If it fails, `stay` is what
    stands here. -/
def ask (x : Engine γ) (stay : α) (f : γ → InPlace α) : InPlace α :=
  fun c => (x.answer? c).bind fun (r, c₁) => match r with
    | .ok a => f a c₁
    | .error e => some ({ place := stay, result := .error e }, c₁)

/-- The whole that a part stands in. -/
def map (g : α → β) (x : InPlace α) : InPlace β :=
  fun c => (x c).map fun (p, c₁) => ({ p with place := g p.place }, c₁)

/-- Errors pass through the frame. -/
def within (frame : Frame) (x : InPlace α) : InPlace α :=
  fun c => (x c).map fun (p, c₁) =>
    ({ p with result := p.result.mapError fun e => e.within frame }, c₁)

/-- The changed value with its footnotes, or the error. -/
def settle (x : InPlace α) : Engine (α × List Footnote) :=
  ExceptT.mk fun c => (x c).map fun (p, c₁) =>
    (p.result.map fun _ => (p.place, p.notes), c₁)

variable {c : Context}

theorem done_andThen (a : α) (stay : α → β) (f : α → InPlace β) :
    (done a []).andThen stay f = f a := by
  funext c
  change ((f a) c).map _ = _
  rcases (f a) c with _ | q <;> rfl

theorem map_done (g : α → β) (a : α) (notes : List Footnote) :
    (done a notes).map g = done (g a) notes := rfl

/-! ### Settling -/

theorem answer?_settle (x : InPlace α) :
    x.settle.answer? c = (x c).map fun (p, c₁) =>
      (p.result.map fun _ => (p.place, p.notes), c₁) := rfl

theorem settle_done (a : α) (notes : List Footnote) :
    (done a notes).settle = pure (a, notes) := rfl

theorem settle_andThen (x : InPlace α) (stay : α → β) (f : α → InPlace β) :
    (x.andThen stay f).settle = (do
      let (a, notes) ← x.settle
      let (b, more) ← (f a).settle
      return (b, notes ++ more)) := by
  funext c
  change (x.andThen stay f).settle.answer? c = Engine.answer? _ c
  rw [answer?_settle, Engine.answer?_bind, answer?_settle, andThen]
  rcases x c with _ | ⟨⟨place, notes, _ | ⟨⟨⟩⟩⟩, c₁⟩
  · rfl
  · rfl
  · change Option.map _ (((f place) c₁).map _) = Engine.answer? _ c₁
    rw [Engine.answer?_bind, answer?_settle]
    rcases (f place) c₁ with _ | ⟨⟨_, _, _ | ⟨⟨⟩⟩⟩, _⟩ <;> rfl

theorem settle_map (g : α → β) (x : InPlace α) :
    (x.map g).settle = (do
      let (a, notes) ← x.settle
      return (g a, notes)) := by
  funext c
  change (x.map g).settle.answer? c = Engine.answer? _ c
  rw [answer?_settle, Engine.answer?_bind, answer?_settle, map]
  rcases x c with _ | ⟨⟨_, _, _ | ⟨⟨⟩⟩⟩, _⟩ <;> rfl

theorem settle_ask (x : Engine γ) (stay : α) (f : γ → InPlace α) :
    (ask x stay f).settle = x >>= fun a => (f a).settle := by
  funext c
  change (ask x stay f).settle.answer? c = Engine.answer? _ c
  rw [answer?_settle, Engine.answer?_bind, ask]
  rcases x.answer? c with _ | ⟨_ | a, c₁⟩ <;> rfl

theorem settle_within (frame : Frame) (x : InPlace α) :
    (x.within frame).settle = Engine.within frame x.settle := by
  funext c
  change (x.within frame).settle.answer? c = (Engine.within frame x.settle).answer? c
  rw [answer?_settle, Engine.answer?_within, answer?_settle, within]
  rcases x c with _ | ⟨⟨_, _, _ | ⟨⟨⟩⟩⟩, _⟩ <;> rfl

/-! ### What computations leave -/

/-- What stands in the place when the computation ends has `P`, and if it ends without an error
    it has `S`. -/
def Leaves (P S : α → Prop) (x : InPlace α) : Prop :=
  ∀ c p c', x c = some (p, c') → P p.place ∧ (p.result = .ok () → S p.place)

namespace Leaves

variable {P S : α → Prop} {P' S' : β → Prop}

theorem done {a : α} (hP : P a) (hS : S a) (notes : List Footnote) :
    (done a notes).Leaves P S := by
  rintro c p c' ⟨⟩
  exact ⟨hP, fun _ => hS⟩

theorem andThen {x : InPlace α} {stay : α → β} {f : α → InPlace β} (hx : x.Leaves P S)
    (hstay : ∀ a, P a → P' (stay a)) (hf : ∀ a, P a → S a → (f a).Leaves P' S') :
    (x.andThen stay f).Leaves P' S' := by
  intro c p c' h
  obtain ⟨⟨⟨a, notes, r⟩, c₁⟩, hrun, h⟩ := Option.bind_eq_some_iff.1 h
  obtain ⟨hP, hS⟩ := hx c _ _ hrun
  rcases r with e | ⟨⟨⟩⟩
  · cases h
    exact ⟨hstay a hP, by rintro ⟨⟩⟩
  · obtain ⟨⟨q, c₂⟩, hq, h⟩ := Option.map_eq_some_iff.1 h
    cases h
    exact hf a hP (hS rfl) c₁ q _ hq

theorem map {x : InPlace α} {g : α → β} (hx : x.Leaves P S) (hP : ∀ a, P a → P' (g a))
    (hS : ∀ a, P a → S a → S' (g a)) : (x.map g).Leaves P' S' := by
  intro c p c' h
  obtain ⟨⟨q, c₁⟩, hrun, h⟩ := Option.map_eq_some_iff.1 h
  cases h
  obtain ⟨hq, hok⟩ := hx c q _ hrun
  exact ⟨hP _ hq, fun hr => hS _ hq (hok hr)⟩

theorem ask {x : Engine γ} {stay : α} {f : γ → InPlace α} (hstay : P stay)
    (hf : ∀ a, (f a).Leaves P S) : (ask x stay f).Leaves P S := by
  intro c p c' h
  obtain ⟨⟨r, c₁⟩, -, h⟩ := Option.bind_eq_some_iff.1 h
  rcases r with e | a
  · cases h
    exact ⟨hstay, by rintro ⟨⟩⟩
  · exact hf a c₁ p c' h

theorem within {frame : Frame} {x : InPlace α} (hx : x.Leaves P S) :
    (x.within frame).Leaves P S := by
  intro c p c' h
  obtain ⟨⟨q, c₁⟩, hrun, h⟩ := Option.map_eq_some_iff.1 h
  cases h
  obtain ⟨hP, hS⟩ := hx c q _ hrun
  exact ⟨hP, fun hok => hS (Engine.mapError_eq_ok.1 hok)⟩

end Leaves

end InPlace

/-! ## Choices -/

/-- A ternary command while it is executed: its condition, the branch that was gone into with
    what stands there now, and the evaluation. -/
structure Choice where
  condition : Inline
  chosen : Option (Bool × Inline) := none
  evaluation : Evaluation := .pending

namespace Choice

/-- What stands in the place of a branch that was there before. -/
def branch (q : Choice) (value : Bool) (before : Inline) : Inline :=
  match q.chosen with
  | some (selected, i) => if value = selected then i else before
  | none => before

theorem branch_cases {P : Inline → Prop} (q : Choice) {value : Bool} {before : Inline}
    (hbefore : P before) (hchosen : ∀ i, q.chosen = some (value, i) → P i) :
    P (q.branch value before) := by
  rcases hq : q.chosen with _ | ⟨selected, i⟩
  · simpa only [branch, hq] using hbefore
  · by_cases he : value = selected
    · subst he
      simpa only [branch, hq, if_pos] using hchosen i hq
    · simpa only [branch, hq, if_neg he] using hbefore

/-- The ternary command with the branches that it had before. -/
def place (name : String) (own : Tags) (yes no : Inline) (q : Choice) : Inline :=
  .command name .ternary [q.condition, q.branch true yes, q.branch false no] own q.evaluation

end Choice

/-- Executes a ternary command: its condition, then the branch for the value of the condition. -/
def InPlace.choose (condition : InPlace Inline) (value : Inline → Engine Bool)
    (branch : Bool → InPlace Inline) : InPlace Choice :=
  condition.andThen (fun condition => { condition }) fun condition =>
  ask (value condition) { condition } fun value =>
  (branch value).andThen (fun i => { condition, chosen := some (value, i) }) fun i =>
  done { condition, chosen := some (value, i)
         evaluation := .evaluated (.parameter (if value then 1 else 2)) } []

theorem InPlace.settle_choose (condition : InPlace Inline) (value : Inline → Engine Bool)
    (branch : Bool → InPlace Inline) :
    (choose condition value branch).settle = (do
      let (condition, notes) ← condition.settle
      let value ← value condition
      let (i, more) ← (branch value).settle
      return ({ condition, chosen := some (value, i)
                evaluation := .evaluated (.parameter (if value then 1 else 2)) },
        notes ++ more)) := by
  rw [choose, settle_andThen]
  simp only [settle_ask, settle_andThen, settle_done, bind_assoc, pure_bind, List.append_nil]

/-! ## Execution in place -/

/-- A command that has run is not pending any more. -/
theorem Evaluation.of_ne_pending (output : Output) (footnote : Option Footnote) :
    Evaluation.of output footnote ≠ .pending := by
  cases footnote <;> rintro ⟨⟩

namespace Inline

open InPlace

mutual

/-- Executes the pending commands of an inline, inside text with the tags `enclosing`, where they
    stand. -/
def executeInPlace (handle : DefinitionId → Engine Unit) (scope : Scope) (enclosing : Tags) :
    Inline → InPlace Inline
  | run text own => done (run text own) []
  | span inlines own =>
    (executeListInPlace handle scope (own.inherit enclosing) inlines).map fun inlines =>
      span inlines own
  | command name kind parameters own .pending =>
    let call : Invocation := { name, scope, tags := own.inherit enclosing }
    within (.command name) <|
      match kind, parameters with
      | .ternary, [condition, yes, no] =>
        (choose (condition.executeInPlace handle scope call.tags) call.conditionValue fun
          | true => yes.executeInPlace handle scope call.tags
          | false => no.executeInPlace handle scope call.tags).map (Choice.place name own yes no)
      | .language, [tag, body] =>
        (tag.executeInPlace handle scope call.tags).andThen
          (fun tag => command name .language [tag, body] own .pending) fun tag =>
        ask (do call.languageOf (← Engine.text tag))
          (command name .language [tag, body] own .pending) fun language =>
        (body.executeInPlace handle scope { call.tags with language := some language }).andThen
          (fun body => command name .language [tag, body] own .pending) fun body =>
        done (command name .language [tag, body] own
          (.evaluated (.inline (span [body] { language := some language })))) []
      | .ternary, parameters =>
        ask (call.wrongCount "exactly 3" parameters : Engine Empty)
          (command name .ternary parameters own .pending) Empty.elim
      | .language, parameters =>
        ask (call.wrongCount "exactly 2" parameters : Engine Empty)
          (command name .language parameters own .pending) Empty.elim
      | kind, parameters =>
        (executeListInPlace handle scope call.tags parameters).andThen
          (fun parameters => command name kind parameters own .pending) fun parameters =>
        ask (call.run handle kind parameters) (command name kind parameters own .pending)
          fun effect =>
        done (command name kind parameters own (.of effect.output effect.footnote))
          effect.footnote.toList
  | command name kind parameters own evaluation =>
    done (command name kind parameters own evaluation) []

/-- Executes the pending commands of inlines in order, where they stand. -/
def executeListInPlace (handle : DefinitionId → Engine Unit) (scope : Scope)
    (enclosing : Tags) : List Inline → InPlace (List Inline)
  | [] => done [] []
  | inline :: rest =>
    (inline.executeInPlace handle scope enclosing).andThen (· :: rest) fun inline =>
    (executeListInPlace handle scope enclosing rest).map (inline :: ·)

end

section
variable {handle : DefinitionId → Engine Unit} {scope : Scope} {enclosing : Tags}

theorem executeInPlace_executed {name : String} {kind : CommandKind} {parameters : List Inline}
    {own : Tags} {evaluation : Evaluation} (h : evaluation ≠ .pending) :
    executeInPlace handle scope enclosing (command name kind parameters own evaluation) =
      done (command name kind parameters own evaluation) [] := by
  rw [executeInPlace]
  exact h

theorem executeInPlace_command {name : String} {kind : CommandKind} (parameters : List Inline)
    (own : Tags) (h : kind.resolvesOwnParameters = false) :
    executeInPlace handle scope enclosing (command name kind parameters own .pending) =
      within (.command name)
        ((executeListInPlace handle scope (own.inherit enclosing) parameters).andThen
          (fun parameters => command name kind parameters own .pending) fun parameters =>
        ask (Invocation.run handle { name, scope, tags := own.inherit enclosing } kind parameters)
          (command name kind parameters own .pending) fun effect =>
        done (command name kind parameters own (.of effect.output effect.footnote))
          effect.footnote.toList) := by
  rw [executeInPlace] <;> intros <;> simp_all [CommandKind.resolvesOwnParameters]

/-- With a wrong number of parameters, the ternary and the language command change nothing. -/
theorem executeInPlace_ownParameters (name : String) {kind : CommandKind}
    (parameters : List Inline) (own : Tags) (h : kind.resolvesOwnParameters = true) :
    (∃ condition yes no, kind = .ternary ∧ parameters = [condition, yes, no]) ∨
      (∃ tag body, kind = .language ∧ parameters = [tag, body]) ∨
      ∃ expected, ∀ handle scope enclosing,
        execute handle scope enclosing (command name kind parameters own .pending) =
          Engine.within (.command name)
            (Engine.fail (.wrongCount name expected parameters.length)) ∧
        executeInPlace handle scope enclosing (command name kind parameters own .pending) =
          within (.command name)
            (ask (Engine.fail (.wrongCount name expected parameters.length) : Engine Empty)
              (command name kind parameters own .pending) Empty.elim) := by
  cases kind <;> simp [CommandKind.resolvesOwnParameters] at h
  case ternary =>
    rcases parameters with _ | ⟨a, _ | ⟨b, _ | ⟨d, _ | _⟩⟩⟩
    case cons.cons.cons.nil => exact Or.inl ⟨a, b, d, rfl, rfl⟩
    all_goals
      refine Or.inr (Or.inr ⟨"exactly 3", fun handle scope enclosing => ?_⟩)
      rw [execute, executeInPlace, Invocation.wrongCount, Invocation.wrongCount] <;> simp
  case language =>
    rcases parameters with _ | ⟨a, _ | ⟨b, _ | _⟩⟩
    case cons.cons.nil => exact Or.inr (Or.inl ⟨a, b, rfl, rfl⟩)
    all_goals
      refine Or.inr (Or.inr ⟨"exactly 2", fun handle scope enclosing => ?_⟩)
      rw [execute, executeInPlace, Invocation.wrongCount, Invocation.wrongCount] <;> simp

/-! ### Settling -/

theorem settle_executeListInPlace_of {l : List Inline}
    (h : ∀ i ∈ l, ∀ enclosing, (executeInPlace handle scope enclosing i).settle =
      execute handle scope enclosing i) (enclosing : Tags) :
    (executeListInPlace handle scope enclosing l).settle =
      executeList handle scope enclosing l := by
  induction l with
  | nil => rw [executeListInPlace, executeList, settle_done]
  | cons i l ih =>
    rw [executeListInPlace, executeList, settle_andThen, h i (by simp)]
    simp only [settle_map, ih fun j hj => h j (by simp [hj]), bind_assoc, pure_bind]

theorem settle_executeInPlace (i : Inline) (enclosing : Tags) :
    (executeInPlace handle scope enclosing i).settle = execute handle scope enclosing i := by
  induction i using induction generalizing enclosing with
  | run text own => rw [executeInPlace, execute, settle_done]
  | span l own ih =>
    rw [executeInPlace, execute_span, settle_map, settle_executeListInPlace_of ih]
  | command name kind parameters own evaluation ih _ =>
    by_cases he : evaluation = .pending
    case neg => rw [executeInPlace_executed he, execute_executed he, settle_done]
    subst he
    rcases ho : kind.resolvesOwnParameters with _ | _
    · rw [executeInPlace_command parameters own ho, execute_command parameters own ho,
        settle_within, settle_andThen, settle_executeListInPlace_of ih]
      simp only [settle_ask, settle_done, bind_assoc, pure_bind]
    · rcases executeInPlace_ownParameters name parameters own ho with
        ⟨condition, yes, no, rfl, rfl⟩ | ⟨tag, body, rfl, rfl⟩ | ⟨expected, hfail⟩
      · rw [executeInPlace, execute, settle_within, settle_map, settle_choose,
          ih condition (by simp)]
        simp only [bind_assoc, pure_bind]
        refine congrArg _ (bind_congr fun p => bind_congr fun value => ?_)
        cases value
        · rw [ih no (by simp)]
          rfl
        · rw [ih yes (by simp)]
          rfl
      · rw [executeInPlace, execute, settle_within, settle_andThen, ih tag (by simp)]
        simp only [settle_andThen, settle_ask, settle_done, bind_assoc, pure_bind, List.append_nil]
        refine congrArg _ (bind_congr fun p => bind_congr fun s => bind_congr fun language => ?_)
        rw [ih body (by simp)]
      · obtain ⟨hexecute, hinPlace⟩ := hfail handle scope enclosing
        rw [hexecute, hinPlace, settle_within, settle_ask]
        rfl

theorem settle_executeListInPlace (l : List Inline) (enclosing : Tags) :
    (executeListInPlace handle scope enclosing l).settle =
      executeList handle scope enclosing l :=
  settle_executeListInPlace_of (fun i _ => settle_executeInPlace i) enclosing

end

/-! ## Filling in -/

/-- The second inline is the first one with evaluations filled in where there were none. -/
inductive Fills : Inline → Inline → Prop
  | run (text : String) (own : Tags) : Fills (run text own) (run text own)
  | span {l l' : List Inline} (own : Tags) (h : List.Forall₂ Fills l l') :
    Fills (span l own) (span l' own)
  | pending (name : String) (kind : CommandKind) {ps ps' : List Inline} (own : Tags)
    (evaluation : Evaluation) (h : List.Forall₂ Fills ps ps') :
    Fills (command name kind ps own .pending) (command name kind ps' own evaluation)
  /-- An executed command stays as it is. -/
  | executed (name : String) (kind : CommandKind) (ps : List Inline) (own : Tags)
    {evaluation : Evaluation} (h : evaluation ≠ .pending) :
    Fills (command name kind ps own evaluation) (command name kind ps own evaluation)

mutual

/-- The inline without its evaluations. -/
def unexecuted : Inline → Inline
  | run text own => run text own
  | span inlines own => span (unexecutedList inlines) own
  | command name kind parameters own _ =>
    command name kind (unexecutedList parameters) own .pending

/-- The inlines without their evaluations. -/
def unexecutedList : List Inline → List Inline
  | [] => []
  | inline :: rest => inline.unexecuted :: unexecutedList rest

end

theorem unexecutedList_eq : ∀ l : List Inline, unexecutedList l = l.map unexecuted
  | [] => rfl
  | i :: l => by rw [unexecutedList, unexecutedList_eq l, List.map_cons]

theorem Fills.refl (i : Inline) : i.Fills i := by
  induction i using induction with
  | run text own => exact .run text own
  | span l own ih => exact .span own (List.forall₂_same.2 ih)
  | command name kind ps own evaluation ih _ =>
    by_cases he : evaluation = .pending
    · subst he
      exact .pending name kind own .pending (List.forall₂_same.2 ih)
    · exact .executed name kind ps own he

theorem Fills.refl_list (l : List Inline) : List.Forall₂ Fills l l :=
  List.forall₂_same.2 fun i _ => .refl i

theorem map_unexecuted_eq_of {l l' : List Inline} (h : List.Forall₂ Fills l l')
    (ih : ∀ i ∈ l, ∀ {j}, i.Fills j → j.unexecuted = i.unexecuted) :
    l'.map unexecuted = l.map unexecuted := by
  induction h with
  | nil => rfl
  | cons hi _ ihl =>
    rw [List.map_cons, List.map_cons, ih _ (by simp) hi, ihl fun i hi => ih i (by simp [hi])]

/-- Filling evaluations in changes nothing else. -/
theorem Fills.unexecuted_eq {i j : Inline} (h : i.Fills j) : j.unexecuted = i.unexecuted := by
  induction i using induction generalizing j with
  | run text own => cases h; rfl
  | span l own ih =>
    cases h with
    | span _ h =>
      simp only [unexecuted, unexecutedList_eq]
      rw [map_unexecuted_eq_of h ih]
  | command name kind ps own evaluation ih _ =>
    cases h with
    | pending _ _ _ _ h =>
      simp only [unexecuted, unexecutedList_eq]
      rw [map_unexecuted_eq_of h ih]
    | executed => rfl

theorem map_unexecuted_eq {l : List Inline} (h : ∀ i ∈ l, i.unexecuted = i) :
    l.map unexecuted = l :=
  (List.map_congr_left h).trans l.map_id

/-- An inline without evaluations is as it was. -/
theorem IsIdle.unexecuted_eq {i : Inline} (h : i.IsIdle) : i.unexecuted = i := by
  induction i using induction with
  | run text own => rw [unexecuted]
  | span l own ih =>
    rw [unexecuted, unexecutedList_eq,
      map_unexecuted_eq fun i hi => ih i hi (isIdle_span.1 h i hi)]
  | command name kind ps own evaluation ih _ =>
    obtain ⟨rfl, hps⟩ := isIdle_command.1 h
    rw [unexecuted, unexecutedList_eq, map_unexecuted_eq fun i hi => ih i hi (hps i hi)]

/-! ## Execution fills in -/

/-- Executing the inline in place changes nothing, and nothing happens. -/
def IsSpent (i : Inline) : Prop :=
  ∀ handle scope enclosing, executeInPlace handle scope enclosing i = done i []

theorem isSpent_run (text : String) (own : Tags) : (run text own).IsSpent := by
  intro handle scope enclosing
  rw [executeInPlace]

theorem isSpent_command (name : String) (kind : CommandKind) (ps : List Inline) (own : Tags)
    {evaluation : Evaluation} (h : evaluation ≠ .pending) :
    (command name kind ps own evaluation).IsSpent :=
  fun _ _ _ => executeInPlace_executed h

theorem executeListInPlace_of_isSpent {handle : DefinitionId → Engine Unit} {scope : Scope}
    {enclosing : Tags} {l : List Inline} (h : ∀ i ∈ l, i.IsSpent) :
    executeListInPlace handle scope enclosing l = done l [] := by
  induction l with
  | nil => rw [executeListInPlace]
  | cons i l ih =>
    rw [executeListInPlace, h i (by simp), done_andThen, ih fun j hj => h j (by simp [hj]),
      map_done]

theorem isSpent_span {l : List Inline} (own : Tags) (h : ∀ i ∈ l, i.IsSpent) :
    (span l own).IsSpent := by
  intro handle scope enclosing
  rw [executeInPlace, executeListInPlace_of_isSpent h, map_done]

section
variable {handle : DefinitionId → Engine Unit} {scope : Scope} {enclosing : Tags}

theorem leaves_executeListInPlace_of {l : List Inline}
    (h : ∀ i ∈ l, ∀ enclosing,
      (executeInPlace handle scope enclosing i).Leaves i.Fills IsSpent) (enclosing : Tags) :
    (executeListInPlace handle scope enclosing l).Leaves (List.Forall₂ Fills l)
      fun l' => ∀ i ∈ l', i.IsSpent := by
  induction l with
  | nil =>
    rw [executeListInPlace]
    exact .done .nil (by simp) []
  | cons i l ih =>
    rw [executeListInPlace]
    refine (h i (by simp) enclosing).andThen (fun i' hi => .cons hi (Fills.refl_list l))
      fun i' hi hspent => ?_
    refine (ih fun j hj => h j (by simp [hj])).map (fun l' hl => .cons hi hl) ?_
    exact fun l' _ hl => List.forall_mem_cons.2 ⟨hspent, hl⟩

/-- What was gone into of a ternary command is filled in, and at the end it has its value. -/
theorem leaves_choose {condition : Inline} {x : InPlace Inline} {value : Inline → Engine Bool}
    {before : Bool → Inline} {branch : Bool → InPlace Inline}
    (hx : x.Leaves condition.Fills IsSpent)
    (hbranch : ∀ value, (branch value).Leaves (before value).Fills IsSpent) :
    (choose x value branch).Leaves
      (fun q => condition.Fills q.condition ∧
        ∀ value i, q.chosen = some (value, i) → (before value).Fills i)
      fun q => q.evaluation ≠ .pending := by
  refine hx.andThen (fun condition' hc => ⟨hc, by rintro _ _ ⟨⟩⟩) fun condition' hc _ => ?_
  refine .ask ⟨hc, by rintro _ _ ⟨⟩⟩ fun value => ?_
  have hchosen : ∀ {i}, (before value).Fills i →
      ∀ value' i', some (value, i) = some (value', i') → (before value').Fills i' := by
    rintro i hi _ _ ⟨⟩
    exact hi
  refine (hbranch value).andThen (fun i hi => ⟨hc, hchosen hi⟩) fun i hi _ =>
    .done ⟨hc, hchosen hi⟩ ?_ []
  rintro ⟨⟩

theorem fills_place {name : String} {own : Tags} {condition yes no : Inline} {q : Choice}
    (hc : condition.Fills q.condition)
    (hbranch : ∀ (value : Bool) i, q.chosen = some (value, i) →
      (if value then yes else no).Fills i) :
    (command name .ternary [condition, yes, no] own .pending).Fills (q.place name own yes no) := by
  have hfills : ∀ (value : Bool) before, before = (if value then yes else no) →
      before.Fills (q.branch value before) := by
    rintro value before rfl
    exact q.branch_cases (.refl _) (hbranch value)
  exact .pending _ _ _ _ (.cons hc (.cons (hfills true _ rfl) (.cons (hfills false _ rfl) .nil)))

/-- **Execution in place fills evaluations in, and changes nothing else; what was executed
    without an error is spent.** -/
theorem leaves_executeInPlace (i : Inline) (enclosing : Tags) :
    (executeInPlace handle scope enclosing i).Leaves i.Fills IsSpent := by
  induction i using induction generalizing enclosing with
  | run text own =>
    rw [executeInPlace]
    exact .done (.refl _) (isSpent_run text own) []
  | span l own ih =>
    rw [executeInPlace]
    exact (leaves_executeListInPlace_of ih _).map (fun l' hl => .span own hl)
      fun l' _ hl => isSpent_span own hl
  | command name kind ps own evaluation ih _ =>
    by_cases he : evaluation = .pending
    case neg =>
      rw [executeInPlace_executed he]
      exact .done (.refl _) (isSpent_command name kind ps own he) []
    subst he
    rcases ho : kind.resolvesOwnParameters with _ | _
    · rw [executeInPlace_command ps own ho]
      refine .within ((leaves_executeListInPlace_of ih _).andThen
        (fun ps' hps => .pending _ _ _ _ hps) fun ps' hps _ => ?_)
      refine .ask (.pending _ _ _ _ hps) fun effect => .done (.pending _ _ _ _ hps) ?_ _
      exact isSpent_command _ _ _ _ (Evaluation.of_ne_pending _ _)
    · rcases executeInPlace_ownParameters name ps own ho with
        ⟨condition, yes, no, rfl, rfl⟩ | ⟨tag, body, rfl, rfl⟩ | ⟨expected, hfail⟩
      · rw [executeInPlace]
        refine .within ((leaves_choose (ih condition (by simp) _) ?_).map
          (fun q hq => fills_place hq.1 hq.2) fun q _ hq => isSpent_command _ _ _ _ hq)
        rintro (_ | _)
        · exact ih no (by simp) _
        · exact ih yes (by simp) _
      · rw [executeInPlace]
        -- wherever the command stops, its parameters are filled in as far as it has come
        have hstay : ∀ {tag' body' evaluation}, tag.Fills tag' → body.Fills body' →
            (command name .language [tag, body] own .pending).Fills
              (command name .language [tag', body'] own evaluation) :=
          fun htag hbody => .pending _ _ _ _ (.cons htag (.cons hbody .nil))
        refine .within ((ih tag (by simp) _).andThen (fun tag' htag => hstay htag (.refl _))
          fun tag' htag _ => .ask (hstay htag (.refl _)) fun language => ?_)
        refine (ih body (by simp) _).andThen (fun body' hbody => hstay htag hbody)
          fun body' hbody _ => .done (hstay htag hbody) ?_ []
        exact isSpent_command _ _ _ _ (by rintro ⟨⟩)
      · rw [(hfail handle scope enclosing).2]
        exact .within (.ask (.refl _) fun a => a.elim)

end

theorem fills_of_executeList {handle : DefinitionId → Engine Unit} {scope : Scope}
    {enclosing : Tags} {l l' : List Inline} {notes : List Footnote} {c c' : Context}
    (h : (executeList handle scope enclosing l).Gives c (.ok (l', notes)) c') :
    List.Forall₂ Fills l l' := by
  rw [← settle_executeListInPlace, Engine.Gives, answer?_settle] at h
  obtain ⟨⟨⟨place, made, result⟩, c₁⟩, hrun, h⟩ := Option.map_eq_some_iff.1 h
  rcases result with e | ⟨⟨⟩⟩
  · cases h
  · cases h
    exact (leaves_executeListInPlace_of (fun i _ => leaves_executeInPlace i) _ _ _ _ hrun).1

/-- What is read is handled, and nothing else. -/
theorem map_unexecuted_eq_written {written l : List Inline} (h : List.Forall₂ Fills written l)
    (hwritten : ∀ i ∈ written, i.IsFresh) : l.map unexecuted = written :=
  (map_unexecuted_eq_of h fun _ _ _ hi => hi.unexecuted_eq).trans
    (Inline.map_unexecuted_eq fun i hi => (hwritten i hi).isIdle.unexecuted_eq)

end Inline

/-! ## Texts -/

/-- If the commands of the text are handled and its fonts not yet converted, its source reads as
    inlines that the text fills in. -/
def Content.IsFilledIn (content : Content) : Prop :=
  ∀ l, content.stage = .commandsResolved l →
    ∃ commands written, Markup.parse commands content.source = .ok written ∧
      List.Forall₂ Inline.Fills written l

theorem textLaw_isFilledIn : Context.TextLaw fun _ _ content => content.IsFilledIn where
  unread hunread l hl := by rw [hunread] at hl; cases hl
  mono _ h := h
  handle n hwritten hl := by
    rintro l ⟨⟩
    exact ⟨_, _, hwritten, Inline.fills_of_executeList hl⟩
  convert {_ _ content} fonts tags h l hl := by
    unfold Content.resolveFonts at hl
    split at hl
    · rename_i hstage; rw [hstage] at hl; cases hl
    · rename_i hstage; rw [hstage] at hl; cases hl
    · cases hl

/-- **Execution only fills evaluations in, and once at that.**  Executed in place, every inline ends
    up, with or without an error, as it was with evaluations where there were none; commands that
    were executed before are not touched.  If there is no error, executing it again, by whatever
    passes and in whatever place, changes neither the inline nor the context.  In reachable
    contexts every text whose commands are handled is therefore, without its evaluations, what its
    source reads as.  The texts of definitions that are added by hand are unread, or copies of such
    texts (`Context.IsReachable`). -/
theorem fills_once :
    (∀ (handle : DefinitionId → Engine Unit) (scope : Scope) (enclosing : Tags) (i : Inline),
      (i.executeInPlace handle scope enclosing).settle = i.execute handle scope enclosing ∧
      ∀ c p c', i.executeInPlace handle scope enclosing c = some (p, c') →
        i.Fills p.place ∧ p.place.unexecuted = i.unexecuted ∧
        (p.result = .ok () → ∀ handle' scope' enclosing',
          p.place.executeInPlace handle' scope' enclosing' = .done p.place [] ∧
          p.place.execute handle' scope' enclosing' = pure (p.place, []))) ∧
    ∀ {c : Context}, c.IsReachable → ∀ x d, c.definition? x = some d →
      ∀ content ∈ d.kind.contents, ∀ l, content.stage = .commandsResolved l →
      ∃ commands written, Markup.parse commands content.source = .ok written ∧
        List.Forall₂ Inline.Fills written l ∧ l.map Inline.unexecuted = written := by
  refine ⟨fun handle scope enclosing i =>
    ⟨Inline.settle_executeInPlace i enclosing, fun c p c' h => ?_⟩,
    fun hc x d hd content hcontent l hl => ?_⟩
  · obtain ⟨hfills, hspent⟩ := Inline.leaves_executeInPlace i enclosing c p c' h
    refine ⟨hfills, hfills.unexecuted_eq, fun hok handle' scope' enclosing' => ?_⟩
    have hdone := hspent hok handle' scope' enclosing'
    refine ⟨hdone, ?_⟩
    rw [← Inline.settle_executeInPlace, hdone, InPlace.settle_done]
  · obtain ⟨commands, written, hwritten, hfills⟩ :=
      textLaw_isFilledIn.of_isReachable (fun h => h) hc x d hd content hcontent l hl
    exact ⟨commands, written, hwritten, hfills,
      Inline.map_unexecuted_eq_written hfills (Markup.isFresh_of_mem_parse hwritten)⟩

/-- In a span with a footnote and a command that finds nothing, the footnote is made all the same,
    and the span is otherwise as it was.  The footnote alone succeeds and is not made again.  A
    stanza with a footnote is handled in a reachable context. -/
theorem fills_once_of_failure :
    (∃ (i : Inline) (p : Progress Inline) (c' : Context),
      i.executeInPlace (Engine.handleCommands 2) ⟨⟨0⟩, none⟩ .unset (.new {}) = some (p, c') ∧
      p.result.isOk = false ∧ p.notes.length = 1 ∧
      i.Fills p.place ∧ p.place.unexecuted = i.unexecuted) ∧
    (∃ (i : Inline) (p : Progress Inline) (c' : Context),
      i.executeInPlace (Engine.handleCommands 2) ⟨⟨0⟩, none⟩ .unset (.new {}) = some (p, c') ∧
      p.result = .ok () ∧ p.notes.length = 1 ∧
      p.place.execute (Engine.handleCommands 2) ⟨⟨0⟩, none⟩ .unset = pure (p.place, [])) ∧
    ∃ c : Context, c.IsReachable ∧ ∃ d, c.definition? ⟨1⟩ = some d ∧ ∃ content ∈ d.kind.contents,
      ∃ l, content.stage = .commandsResolved l ∧ ∃ commands,
        Markup.parse commands content.source = .ok (l.map Inline.unexecuted) := by
  let footnote := Inline.command "footnote" .footnote [.text "x"] .unset .pending
  let fails := Inline.command "def" .definition [.text "missing"] .unset .pending
  let edits := [Edit.addDocument "d" "D", .addVersion ⟨0⟩ (.ofKnown .coptic) none,
    .addStanza ⟨0⟩ none "\\footnote\x7bx\x7d"]
  let c := edits.foldl Edit.apply (.new {})
  let c' := (Call.commands ⟨0⟩).run 3 c
  obtain ⟨⟨p, c₁⟩, hp, herror, hnotes⟩ :
      ∃ q ∈ (Inline.span [footnote, fails] .unset).executeInPlace (Engine.handleCommands 2)
          ⟨⟨0⟩, none⟩ .unset (.new {}), q.1.result.isOk = false ∧ q.1.notes.length = 1 := by
    decide +kernel
  obtain ⟨⟨q, c₂⟩, hq, hok, hmade⟩ :
      ∃ q ∈ footnote.executeInPlace (Engine.handleCommands 2) ⟨⟨0⟩, none⟩ .unset (.new {}),
        q.1.result = .ok () ∧ q.1.notes.length = 1 := by
    decide +kernel
  obtain ⟨d, hd, content, hcontent, hstage⟩ :
      ∃ d ∈ c'.definition? ⟨1⟩, ∃ content ∈ d.kind.contents,
        (match content.stage with | .commandsResolved _ => true | _ => false) = true := by
    decide +kernel
  have hc' : c'.IsReachable := .call ((IsReachable.new {}).edits (by decide +kernel))
    (Call.ends_run (by decide +kernel))
  obtain ⟨hruns, htexts⟩ := fills_once
  obtain ⟨hfills, herased, -⟩ := (hruns _ _ _ _).2 _ p c₁ hp
  refine ⟨⟨_, p, c₁, hp, herror, hnotes, hfills, herased⟩,
    ⟨_, q, c₂, hq, hok, hmade, (((hruns _ _ _ _).2 _ q c₂ hq).2.2 hok _ _ _).2⟩,
    c', hc', d, hd, content, hcontent, ?_⟩
  split at hstage
  · rename_i l hl
    obtain ⟨commands, written, hwritten, -, hl'⟩ := htexts hc' _ d hd content hcontent l hl
    exact ⟨l, hl, commands, hl'.symm ▸ hwritten⟩
  · cases hstage

end Rubric
