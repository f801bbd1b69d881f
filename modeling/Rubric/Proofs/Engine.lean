/-
  Rubric — what computations on a context give, and what they keep.

  * `Engine.Gives x c r c'`: from `c`, the computation `x` ends with `r` and
    leaves `c'`; one inversion lemma for each way to build a computation;
  * `Engine.Moves R x`: whenever `x` ends, with a value or an error, `R` joins
    the context before it to the one after it;
  * `Engine.Secures I R x Q`: from a context with `I`, `x` moves along `R` to one
    with `I`, and brings `Q` about if it ends with a value.
-/
import Rubric.Resolution.Fonts

namespace Rubric

/-- The context with another number of passes under way. -/
def Context.atDepth (c : Context) (depth : Nat) : Context :=
  { c with depth }

namespace Engine

variable {α β : Type} {c c' : Context}

/-- From `c`, the computation ends with `r` and leaves `c'`. -/
def Gives (x : Engine α) (c : Context) (r : Except Error α) (c' : Context) : Prop :=
  x.answer? c = some (r, c')

/-! ## Answers -/

theorem answer?_pure (a : α) : (pure a : Engine α).answer? c = some (.ok a, c) := rfl

theorem answer?_get : (get : Engine Context).answer? c = some (.ok c, c) := rfl

theorem answer?_throw (e : Error) : (throw e : Engine α).answer? c = some (.error e, c) := rfl

theorem answer?_bind (x : Engine α) (f : α → Engine β) :
    (x >>= f).answer? c = (x.answer? c).bind fun p => match p with
      | (.ok a, c₁) => (f a).answer? c₁
      | (.error e, c₁) => some (.error e, c₁) := by
  change (x.run.run c).bind _ = (x.run.run c).bind _
  rcases x.run.run c with _ | ⟨_ | _, _⟩ <;> rfl

theorem answer?_tryCatch (x : Engine α) (f : Error → Engine α) :
    (tryCatch x f : Engine α).answer? c = (x.answer? c).bind fun p => match p with
      | (.ok a, c₁) => some (.ok a, c₁)
      | (.error e, c₁) => (f e).answer? c₁ := by
  change (x.run.run c).bind _ = (x.run.run c).bind _
  rcases x.run.run c with _ | ⟨_ | _, _⟩ <;> rfl

theorem answer?_within (frame : Frame) (x : Engine α) :
    (within frame x).answer? c =
      (x.answer? c).map fun p => (p.1.mapError fun e => e.within frame, p.2) := by
  simp only [within, answer?_tryCatch]
  rcases x.answer? c with _ | ⟨_ | _, _⟩ <;> rfl

theorem answer?_attempt (x : Engine Unit) :
    (attempt x).answer? c = (x.answer? c).map fun p => (.ok (match p.1 with
      | .ok () => none
      | .error e => some e), p.2) := by
  simp only [attempt, answer?_tryCatch, answer?_bind]
  rcases x.answer? c with _ | ⟨_ | _, _⟩ <;> rfl

/-- A nested pass is refused at the limit; otherwise it runs one level deeper. -/
theorem answer?_nested (frame : Frame) (x : Engine Unit) :
    (nested frame x).answer? c =
      match c.settings.depthLimit.filter (· ≤ c.depth) with
      | some limit => some (.error (.ofCause (.depthExceeded limit)), c)
      | none => (x.answer? (c.atDepth (c.depth + 1))).map fun p =>
        (p.1.mapError fun e => e.within frame, p.2.atDepth (p.2.depth - 1)) := by
  have henter : (enter : Engine Unit).answer? c =
      match c.settings.depthLimit.filter (· ≤ c.depth) with
      | some limit => some (.error (.ofCause (.depthExceeded limit)), c)
      | none => some (.ok (), c.atDepth (c.depth + 1)) := by
    simp only [enter, answer?_bind, answer?_get, Option.bind_some]
    rcases hl : c.settings.depthLimit with _ | limit
    · rfl
    · by_cases hd : limit ≤ c.depth
      · rw [Option.filter_some_pos (by simpa using hd)]
        simp only [hd, if_true]; rfl
      · rw [Option.filter_some_neg (by simpa using hd)]
        simp only [hd, if_false]; rfl
  rw [nested, answer?_bind, henter]
  rcases c.settings.depthLimit.filter (· ≤ c.depth) with _ | limit
  · simp only [Option.bind_some, answer?_bind, answer?_attempt, answer?_within]
    rcases x.answer? (c.atDepth (c.depth + 1)) with _ | ⟨_ | _, _⟩ <;> rfl
  · rfl

/-! ## Inversion -/

@[simp]
theorem gives_pure {a : α} {r : Except Error α} :
    (pure a : Engine α).Gives c r c' ↔ r = .ok a ∧ c' = c := by
  simp only [Gives, answer?_pure, Option.some.injEq, Prod.mk.injEq, eq_comm]

@[simp]
theorem gives_throw {e : Error} {r : Except Error α} :
    (throw e : Engine α).Gives c r c' ↔ r = .error e ∧ c' = c := by
  simp only [Gives, answer?_throw, Option.some.injEq, Prod.mk.injEq, eq_comm]

@[simp]
theorem gives_fail {cause : Cause} {r : Except Error α} :
    (fail cause : Engine α).Gives c r c' ↔ r = .error (.ofCause cause) ∧ c' = c :=
  gives_throw

@[simp]
theorem gives_get {r : Except Error Context} :
    (get : Engine Context).Gives c r c' ↔ r = .ok c ∧ c' = c := by
  change some (Except.ok c, c) = some (r, c') ↔ _
  simp only [Option.some.injEq, Prod.mk.injEq, eq_comm]

@[simp]
theorem gives_set {c₁ : Context} {r : Except Error PUnit} :
    (set c₁ : Engine PUnit).Gives c r c' ↔ r = .ok ⟨⟩ ∧ c' = c₁ := by
  change some (Except.ok PUnit.unit, c₁) = some (r, c') ↔ _
  simp only [Option.some.injEq, Prod.mk.injEq, eq_comm]

@[simp]
theorem gives_modify {f : Context → Context} {r : Except Error PUnit} :
    (modify f : Engine PUnit).Gives c r c' ↔ r = .ok ⟨⟩ ∧ c' = f c := by
  change some (Except.ok PUnit.unit, f c) = some (r, c') ↔ _
  simp only [Option.some.injEq, Prod.mk.injEq, eq_comm]

@[simp]
theorem gives_modifyGet {f : Context → α × Context} {r : Except Error α} :
    (modifyGet f : Engine α).Gives c r c' ↔ r = .ok (f c).1 ∧ c' = (f c).2 := by
  change some (Except.ok (f c).1, (f c).2) = some (r, c') ↔ _
  simp only [Option.some.injEq, Prod.mk.injEq, eq_comm]

@[simp]
theorem gives_endless {r : Except Error α} : (endless : Engine α).Gives c r c' ↔ False := by
  change none = some (r, c') ↔ _
  simp

@[simp]
theorem gives_ofOption {o : Option α} {r : Except Error α} :
    (ofOption o).Gives c r c' ↔ ∃ a, o = some a ∧ r = .ok a ∧ c' = c := by
  cases o <;> simp [ofOption]

@[simp]
theorem gives_ofExcept_ok {x : Except Cause α} {a : α} :
    (ofExcept x).Gives c (.ok a) c' ↔ x = .ok a ∧ c' = c := by
  cases x <;> simp [ofExcept, eq_comm]

/-- A sequence ends with its second part, or with an error in the first. -/
theorem gives_bind {x : Engine α} {f : α → Engine β} {r : Except Error β} :
    (x >>= f).Gives c r c' ↔
      (∃ a c₁, x.Gives c (.ok a) c₁ ∧ (f a).Gives c₁ r c') ∨
        ∃ e, x.Gives c (.error e) c' ∧ r = .error e := by
  simp only [Gives, answer?_bind]
  rcases x.answer? c with _ | ⟨e | a, c₁⟩
  · simp
  · simp [and_assoc, eq_comm, and_comm]
  · simp [and_assoc]

/-- A sequence ends with a value only if both its parts do. -/
theorem gives_bind_ok {x : Engine α} {f : α → Engine β} {b : β} :
    (x >>= f).Gives c (.ok b) c' ↔ ∃ a c₁, x.Gives c (.ok a) c₁ ∧ (f a).Gives c₁ (.ok b) c' := by
  simp [gives_bind]

/-- A first part that ends with a value in one way only can be passed over. -/
theorem gives_bind_of_answer? {x : Engine α} {a : α} {c₁ : Context}
    (h : x.answer? c = some (.ok a, c₁)) {f : α → Engine β} {r : Except Error β} :
    (x >>= f).Gives c r c' ↔ (f a).Gives c₁ r c' := by
  simp only [Gives, answer?_bind, h, Option.bind_some]

@[simp]
theorem gives_get_bind {f : Context → Engine β} {r : Except Error β} :
    ((get : Engine Context) >>= f).Gives c r c' ↔ (f c).Gives c r c' :=
  gives_bind_of_answer? rfl

@[simp]
theorem gives_modify_bind {f : Context → Context} {g : PUnit → Engine β} {r : Except Error β} :
    ((modify f : Engine PUnit) >>= g).Gives c r c' ↔ (g ⟨⟩).Gives (f c) r c' :=
  gives_bind_of_answer? rfl

@[simp]
theorem gives_set_bind {c₁ : Context} {g : PUnit → Engine β} {r : Except Error β} :
    ((set c₁ : Engine PUnit) >>= g).Gives c r c' ↔ (g ⟨⟩).Gives c₁ r c' :=
  gives_bind_of_answer? rfl

@[simp]
theorem gives_ofOption_bind {o : Option α} {f : α → Engine β} {r : Except Error β} :
    (ofOption o >>= f).Gives c r c' ↔ ∃ a, o = some a ∧ (f a).Gives c r c' := by
  cases o <;> simp [ofOption, gives_bind]

theorem gives_ofExcept_bind_ok {x : Except Cause α} {f : α → Engine β} {b : β} :
    (ofExcept x >>= f).Gives c (.ok b) c' ↔ ∃ a, x = .ok a ∧ (f a).Gives c (.ok b) c' := by
  cases x <;> simp [ofExcept, gives_bind_ok]

@[simp]
theorem gives_definition_bind {id : DefinitionId} {f : Definition → Engine β}
    {r : Except Error β} :
    (definition id >>= f).Gives c r c' ↔
      ∃ d, c.definition? id = some d ∧ (f d).Gives c r c' := by
  simp [definition, bind_assoc]

/-- A frame changes nothing but the errors that pass it. -/
theorem gives_within {frame : Frame} {x : Engine α} {r : Except Error α} :
    (within frame x).Gives c r c' ↔
      ∃ r₁, x.Gives c r₁ c' ∧ r = r₁.mapError fun e => e.within frame := by
  simp only [Gives, answer?_within, Option.map_eq_some_iff, Prod.mk.injEq, Prod.exists]
  constructor
  · rintro ⟨r₁, _, h, rfl, rfl⟩; exact ⟨r₁, h, rfl⟩
  · rintro ⟨r₁, h, rfl⟩; exact ⟨r₁, c', h, rfl, rfl⟩

theorem mapError_eq_ok {f : Error → Error} {r : Except Error α} {a : α} :
    r.mapError f = .ok a ↔ r = .ok a := by
  rcases r with e | b
  · constructor <;> (intro h; cases h)
  · exact Iff.rfl

@[simp]
theorem gives_within_ok {frame : Frame} {x : Engine α} {a : α} :
    (within frame x).Gives c (.ok a) c' ↔ x.Gives c (.ok a) c' := by
  simp only [gives_within, eq_comm (a := Except.ok a), mapError_eq_ok, exists_eq_right]

/-- A nested pass is refused at the limit; otherwise it runs one level deeper. -/
theorem gives_nested {frame : Frame} {x : Engine Unit} {r : Except Error Unit}
    (h : (nested frame x).Gives c r c') :
    (∃ limit, c.settings.depthLimit = some limit ∧ limit ≤ c.depth ∧
        r = .error (.ofCause (.depthExceeded limit)) ∧ c' = c) ∨
      ∃ r₁ c₁, x.Gives (c.atDepth (c.depth + 1)) r₁ c₁ ∧
        r = (r₁.mapError fun e => e.within frame) ∧ c' = c₁.atDepth (c₁.depth - 1) := by
  rw [Gives, answer?_nested] at h
  rcases hf : c.settings.depthLimit.filter (· ≤ c.depth) with _ | limit
  · simp only [hf, Option.map_eq_some_iff, Prod.mk.injEq, Prod.exists] at h
    obtain ⟨r₁, c₁, h, rfl, rfl⟩ := h
    exact Or.inr ⟨r₁, c₁, h, rfl, rfl⟩
  · simp only [hf, Option.some.injEq, Prod.mk.injEq] at h
    simp only [Option.filter_eq_some_iff, decide_eq_true_eq] at hf
    exact Or.inl ⟨limit, hf.1, hf.2, h.1.symm, h.2.symm⟩

/-- The first error of two. -/
def firstError : Except Error Unit → Except Error Unit → Except Error Unit
  | .ok (), r => r
  | .error e, _ => .error e

theorem firstError_eq_ok {r₁ r₂ : Except Error Unit} :
    firstError r₁ r₂ = .ok () ↔ r₁ = .ok () ∧ r₂ = .ok () := by
  rcases r₁ with _ | ⟨⟨⟩⟩ <;> simp [firstError]

@[simp]
theorem firstError_ok (r : Except Error Unit) : firstError r (.ok ()) = r := by
  rcases r with _ | ⟨⟨⟩⟩ <;> rfl

/-- Of computations that run in order, those behind an error run, too. -/
theorem gives_runAll_cons {x : Engine Unit} {xs : List (Engine Unit)} {r : Except Error Unit} :
    (runAll (x :: xs)).Gives c r c' ↔
      ∃ r₁ c₁ r₂, x.Gives c r₁ c₁ ∧ (runAll xs).Gives c₁ r₂ c' ∧ r = firstError r₁ r₂ := by
  have hr : (runAll (x :: xs)).answer? c = (x.answer? c).bind fun p =>
      ((runAll xs).answer? p.2).map fun q => (firstError p.1 q.1, q.2) := by
    simp only [runAll, answer?_bind, answer?_attempt]
    rcases x.answer? c with _ | ⟨_ | _, c₁⟩
    · rfl
    all_goals
      simp only [Option.map_some, Option.bind_some]
      rcases (runAll xs).answer? c₁ with _ | ⟨_ | _, _⟩ <;> rfl
  simp only [Gives, hr, Option.bind_eq_some_iff, Option.map_eq_some_iff, Prod.mk.injEq, Prod.exists]
  constructor
  · rintro ⟨r₁, c₁, h₁, r₂, _, h₂, rfl, rfl⟩; exact ⟨r₁, c₁, r₂, h₁, h₂, rfl⟩
  · rintro ⟨r₁, c₁, r₂, h₁, h₂, rfl⟩; exact ⟨r₁, c₁, h₁, r₂, c', h₂, rfl, rfl⟩

theorem gives_runAll_singleton {x : Engine Unit} {r : Except Error Unit} :
    (runAll [x]).Gives c r c' ↔ x.Gives c r c' := by
  rw [gives_runAll_cons]
  constructor
  · rintro ⟨r₁, c₁, r₂, hx, hnil, rfl⟩
    obtain ⟨rfl, rfl⟩ := gives_pure.1 hnil
    rw [firstError_ok]
    exact hx
  · intro hx
    exact ⟨r, c', .ok (), hx, gives_pure.2 ⟨rfl, rfl⟩, (firstError_ok r).symm⟩

/-- The computations of two lists run one list after the other. -/
theorem gives_runAll_append {xs ys : List (Engine Unit)} {r : Except Error Unit}
    (h : (runAll (xs ++ ys)).Gives c r c') :
    ∃ r₁ c₁ r₂, (runAll xs).Gives c r₁ c₁ ∧ (runAll ys).Gives c₁ r₂ c' ∧
      r = firstError r₁ r₂ := by
  induction xs generalizing c r with
  | nil => exact ⟨.ok (), c, r, gives_pure.2 ⟨rfl, rfl⟩, h, rfl⟩
  | cons x xs ih =>
    obtain ⟨r₁, c₁, r₂, h₁, h₂, rfl⟩ := gives_runAll_cons.1 h
    obtain ⟨r₃, c₂, r₄, h₃, h₄, rfl⟩ := ih h₂
    refine ⟨_, c₂, r₄, gives_runAll_cons.2 ⟨r₁, c₁, r₃, h₁, h₃, rfl⟩, h₄, ?_⟩
    rcases r₁ with _ | ⟨⟨⟩⟩ <;> rfl

/-- One computation at most runs before those of a list. -/
theorem gives_runAll_toList_append {ι : Type} {o : Option ι} {f : ι → Engine Unit}
    {xs : List (Engine Unit)} {r : Except Error Unit}
    (h : (runAll (o.toList.map f ++ xs)).Gives c r c') :
    ∃ r₁ c₁ r₂, (o.toList = [] ∧ r₁ = .ok () ∧ c₁ = c ∨ ∃ i ∈ o.toList, (f i).Gives c r₁ c₁) ∧
      (runAll xs).Gives c₁ r₂ c' ∧ r = firstError r₁ r₂ := by
  obtain ⟨r₁, c₁, r₂, h₁, h₂, rfl⟩ := gives_runAll_append h
  refine ⟨r₁, c₁, r₂, ?_, h₂, rfl⟩
  rcases o with _ | i
  · exact Or.inl ⟨rfl, gives_pure.1 h₁⟩
  · exact Or.inr ⟨i, by simp, gives_runAll_singleton.1 h₁⟩

/-! ## What computations keep -/

/-- A relation between contexts that the steps of a computation can be joined along. -/
structure Composes (R : Context → Context → Prop) : Prop where
  refl : ∀ c, R c c
  trans : ∀ {c₁ c₂ c₃}, R c₁ c₂ → R c₂ c₃ → R c₁ c₃

/-- However it ends, the computation moves contexts along `R`. -/
def Moves (R : Context → Context → Prop) (x : Engine α) : Prop :=
  ∀ c r c', x.Gives c r c' → R c c'

section
variable {R : Context → Context → Prop} (hR : Composes R)
include hR

theorem Moves.pure (a : α) : (pure a : Engine α).Moves R := by
  intro c r c' h
  obtain ⟨-, rfl⟩ := gives_pure.1 h; exact hR.refl _

theorem Moves.throw (e : Error) : (throw e : Engine α).Moves R := by
  intro c r c' h
  obtain ⟨-, rfl⟩ := gives_throw.1 h; exact hR.refl _

theorem Moves.fail (cause : Cause) : (fail cause : Engine α).Moves R :=
  Moves.throw hR _

theorem Moves.get : (get : Engine Context).Moves R := by
  intro c r c' h
  obtain ⟨-, rfl⟩ := gives_get.1 h; exact hR.refl _

theorem Moves.ofOption (o : Option α) : (ofOption o).Moves R := by
  intro c r c' h
  obtain ⟨_, -, -, rfl⟩ := gives_ofOption.1 h; exact hR.refl _

theorem Moves.ofExcept (x : Except Cause α) : (ofExcept x).Moves R := by
  cases x with
  | ok a => exact Moves.pure hR a
  | error cause => exact Moves.fail hR cause

theorem Moves.bind {x : Engine α} {f : α → Engine β} (hx : x.Moves R) (hf : ∀ a, (f a).Moves R) :
    (x >>= f).Moves R := by
  intro c r c' h
  rcases gives_bind.1 h with ⟨a, c₁, h₁, h₂⟩ | ⟨e, h₁, -⟩
  · exact hR.trans (hx _ _ _ h₁) (hf a _ _ _ h₂)
  · exact hx _ _ _ h₁

theorem Moves.definition (id : DefinitionId) : (definition id).Moves R :=
  Moves.bind hR (Moves.get hR) fun _ => Moves.ofOption hR _

omit hR in
theorem Moves.modify {f : Context → Context} (h : ∀ c, R c (f c)) :
    (modify f : Engine PUnit).Moves R := by
  intro c r c' hf
  obtain ⟨-, rfl⟩ := gives_modify.1 hf; exact h _

omit hR in
theorem Moves.within {frame : Frame} {x : Engine α} (hx : x.Moves R) :
    (within frame x).Moves R := by
  intro c r c' h
  obtain ⟨r₁, h₁, -⟩ := gives_within.1 h; exact hx _ _ _ h₁

theorem Moves.runAll {xs : List (Engine Unit)} (h : ∀ x ∈ xs, x.Moves R) : (runAll xs).Moves R := by
  induction xs with
  | nil => exact Moves.pure hR ()
  | cons x xs ih =>
    intro c r c' hc
    obtain ⟨r₁, c₁, r₂, h₁, h₂, -⟩ := gives_runAll_cons.1 hc
    exact hR.trans (h x (by simp) _ _ _ h₁) (ih (fun y hy => h y (by simp [hy])) _ _ _ h₂)

theorem Moves.forM {ι : Type} {f : ι → Engine PUnit} {l : List ι} (h : ∀ i ∈ l, (f i).Moves R) :
    (l.forM f).Moves R := by
  induction l with
  | nil => exact Moves.pure hR PUnit.unit
  | cons i l ih =>
    exact Moves.bind hR (h i (by simp)) fun _ => ih fun j hj => h j (by simp [hj])

end

/-- From a context with `I`, the computation moves along `R` to one with `I`, and brings `Q`
    about if it ends with a value. -/
def Secures (I : Context → Prop) (R : Context → Context → Prop) (x : Engine α)
    (Q : α → Context → Prop) : Prop :=
  ∀ c r c', I c → x.Gives c r c' → I c' ∧ R c c' ∧ ∀ a, r = .ok a → Q a c'

section
variable {I : Context → Prop} {R : Context → Context → Prop} (hR : Composes R)
include hR

/-- What all computations of a list secure, if nothing they bring about is undone. -/
theorem Secures.runAll {ι : Type} {f : ι → Engine Unit} {Q : ι → Context → Prop}
    (hQ : ∀ i {c c'}, R c c' → Q i c → Q i c') :
    ∀ {l : List ι}, (∀ i ∈ l, (f i).Secures I R fun _ => Q i) →
      (runAll (l.map f)).Secures I R fun _ c => ∀ i ∈ l, Q i c
  | [], _ => by
    intro c r c' hI h
    obtain ⟨rfl, rfl⟩ := gives_pure.1 h
    exact ⟨hI, hR.refl _, fun _ _ => by simp⟩
  | i :: l, hl => by
    intro c r c' hI h
    obtain ⟨r₁, c₁, r₂, h₁, h₂, rfl⟩ := gives_runAll_cons.1 h
    obtain ⟨hI₁, hR₁, hQ₁⟩ := hl i (by simp) _ _ _ hI h₁
    obtain ⟨hI₂, hR₂, hQ₂⟩ := Secures.runAll hQ (fun j hj => hl j (by simp [hj])) _ _ _ hI₁ h₂
    refine ⟨hI₂, hR.trans hR₁ hR₂, fun _ hr j hj => ?_⟩
    obtain ⟨rfl, rfl⟩ := firstError_eq_ok.1 hr
    rcases List.mem_cons.1 hj with rfl | hj
    · exact hQ j hR₂ (hQ₁ _ rfl)
    · exact hQ₂ _ rfl j hj

/-- What the computations of a list secure, run up to the first error. -/
theorem Secures.forM {ι : Type} {f : ι → Engine PUnit} {Q : ι → Context → Prop}
    (hQ : ∀ i {c c'}, R c c' → Q i c → Q i c') :
    ∀ {l : List ι}, (∀ i ∈ l, (f i).Secures I R fun _ => Q i) →
      (l.forM f).Secures I R fun _ c => ∀ i ∈ l, Q i c
  | [], _ => by
    intro c r c' hI h
    obtain ⟨rfl, rfl⟩ := gives_pure.1 h
    exact ⟨hI, hR.refl _, fun _ _ => by simp⟩
  | i :: l, hl => by
    intro c r c' hI h
    rcases gives_bind.1 h with ⟨_, c₁, h₁, h₂⟩ | ⟨e, h₁, rfl⟩
    · obtain ⟨hI₁, hR₁, hQ₁⟩ := hl i (by simp) _ _ _ hI h₁
      obtain ⟨hI₂, hR₂, hQ₂⟩ := Secures.forM hQ (fun j hj => hl j (by simp [hj])) _ _ _ hI₁ h₂
      refine ⟨hI₂, hR.trans hR₁ hR₂, fun _ hr j hj => ?_⟩
      rcases List.mem_cons.1 hj with rfl | hj
      · exact hQ j hR₂ (hQ₁ _ rfl)
      · exact hQ₂ _ hr j hj
    · obtain ⟨hI₁, hR₁, -⟩ := hl i (by simp) _ _ _ hI h₁
      exact ⟨hI₁, hR₁, by simp⟩

/-- What a pass secures that runs one level deeper. -/
theorem Secures.nested {frame : Frame} {x : Engine Unit} {Q : Context → Prop}
    (hdepth : ∀ c depth, R c (c.atDepth depth)) (hI : ∀ {c} depth, I c → I (c.atDepth depth))
    (hQ : ∀ {c c'}, R c c' → Q c → Q c') (hx : x.Secures I R fun _ => Q) :
    (nested frame x).Secures I R fun _ => Q := by
  intro c r c' hc h
  rcases gives_nested h with ⟨limit, -, -, rfl, rfl⟩ | ⟨r₁, c₁, h₁, rfl, rfl⟩
  · exact ⟨hc, hR.refl _, by simp⟩
  · obtain ⟨hI₁, hR₁, hQ₁⟩ := hx _ _ _ (hI _ hc) h₁
    refine ⟨hI _ hI₁, hR.trans (hdepth c _) (hR.trans hR₁ (hdepth c₁ _)), ?_⟩
    intro a ha
    exact hQ (hdepth c₁ _) (hQ₁ a (mapError_eq_ok.1 ha))

end

end Engine

end Rubric
