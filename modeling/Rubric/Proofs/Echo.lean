/-
  Rubric — one run that echoes another.

  Two computations run side by side, from contexts that a relation joins.  The
  second echoes the first if it ends as the first does, and the relation joins
  the contexts that they leave.

  * `Rigor`: at which ends of the first run this is asked;
  * `Engine.Excuses`, `Engine.Exempts`: what excuses the second run from it;
  * `Engine.Echoes`: the answer of the second run echoes that of the first; one
    rule for each way to build a computation.
-/
import Rubric.Proofs.Engine

namespace Rubric

/-- How closely one run has to echo another. -/
inductive Rigor where
  /-- However the first run ends. -/
  | always
  /-- If the first run ends with a value. -/
  | values
  /-- If the first run ends with a value, and the second has an answer and exceeds no limit. -/
  | limits
  /-- If the first run ends with a value; if it ends with another error than that a limit is
      exceeded, the second run ends with the same error, or not at all. -/
  | errors
  /-- If both runs end. -/
  | answers
  deriving DecidableEq

/-- The depth limit, if it lets no pass nest any deeper. -/
def Context.refusal? (c : Context) : Option Nat :=
  c.settings.depthLimit.filter (· ≤ c.depth)

theorem Context.refusal?_eq_some {c : Context} {limit : Nat} :
    c.refusal? = some limit ↔ c.settings.depthLimit = some limit ∧ limit ≤ c.depth := by
  simp [refusal?, Option.filter_eq_some_iff]

theorem Context.refusal?_eq_none {c : Context} :
    c.refusal? = none ↔ ∀ limit, c.settings.depthLimit = some limit → c.depth < limit := by
  simp [refusal?, Option.filter_eq_none_iff]

namespace Engine

variable {α β : Type} {c c' : Context}

theorem answer?_nested_of_refusal {limit : Nat} (h : c.refusal? = some limit) (frame : Frame)
    (x : Engine Unit) :
    (nested frame x).answer? c = some (.error (.ofCause (.depthExceeded limit)), c) := by
  rw [answer?_nested, show c.settings.depthLimit.filter (· ≤ c.depth) = some limit from h]

theorem answer?_nested_of_open (h : c.refusal? = none) (frame : Frame) (x : Engine Unit) :
    (nested frame x).answer? c = (x.answer? (c.atDepth (c.depth + 1))).map fun p =>
      (p.1.mapError fun e => e.within frame, p.2.atDepth (p.2.depth - 1)) := by
  rw [answer?_nested, show c.settings.depthLimit.filter (· ≤ c.depth) = none from h]

/-- There is no answer, or it is that the depth limit is reached. -/
def Exceeds (answer : Option (Except Error α × Context)) : Prop :=
  ∀ r c, answer = some (r, c) → ∃ e, r = .error e ∧ e.cause.kind = .depthExceeded

/-- The second answer is all that is asked of it where the first run ends with the error. -/
def Excuses (rigor : Rigor) (e : Error) (second : Option (Except Error α × Context)) : Prop :=
  match rigor with
  | .always | .answers => False
  | .values | .limits => True
  | .errors => e.cause.kind = .depthExceeded ∨ ∀ r c, second = some (r, c) → r = .error e

/-- The second answer is all that is asked of it, however the first run ends. -/
def Exempts (rigor : Rigor) (second : Option (Except Error α × Context)) : Prop :=
  match rigor with
  | .always | .values | .errors => False
  | .limits => Exceeds second
  | .answers => second = none

/-- The second answer is that of a run that echoes the run of the first one. -/
def Echoes (rigor : Rigor) (R : Context → Context → Prop)
    (first second : Option (Except Error α × Context)) : Prop :=
  ∀ r c, first = some (r, c) → (∃ c', second = some (r, c') ∧ R c c') ∨
    (∃ e, r = .error e ∧ Excuses rigor e second) ∨ Exempts rigor second

/-! ## Exceeding a limit -/

theorem exceeds_none : Exceeds (none : Option (Except Error α × Context)) := by
  rintro _ _ ⟨⟩

theorem exceeds_of_refused (limit : Nat) :
    Exceeds (some (.error (.ofCause (.depthExceeded limit)), c) :
      Option (Except Error α × Context)) := by
  rintro _ _ ⟨⟩
  exact ⟨_, rfl, rfl⟩

theorem Exceeds.bind {x : Engine α} (h : Exceeds (x.answer? c)) (f : α → Engine β) :
    Exceeds ((x >>= f).answer? c) := by
  intro r c₁ hx
  rw [answer?_bind] at hx
  rcases ha : x.answer? c with _ | ⟨r₁, c₂⟩
  · rw [ha] at hx; cases hx
  · obtain ⟨e, rfl, he⟩ := h _ _ ha
    rw [ha] at hx
    cases hx
    exact ⟨e, rfl, he⟩

theorem Exceeds.within {x : Engine α} (h : Exceeds (x.answer? c)) (frame : Frame) :
    Exceeds ((Engine.within frame x).answer? c) := by
  intro r c₁ hx
  obtain ⟨r₁, h₁, rfl⟩ := gives_within.1 hx
  obtain ⟨e, rfl, he⟩ := h _ _ h₁
  exact ⟨_, rfl, he⟩

/-- A list that runs in order exceeds a limit if its first computation does, whatever the others
    do after that. -/
theorem Exceeds.runAll {x : Engine Unit} (h : Exceeds (x.answer? c)) (xs : List (Engine Unit)) :
    Exceeds ((Engine.runAll (x :: xs)).answer? c) := by
  intro r c₂ hx
  obtain ⟨r₁, c₁, r₂, h₁, -, rfl⟩ := gives_runAll_cons.1 hx
  obtain ⟨e, rfl, he⟩ := h _ _ h₁
  exact ⟨e, rfl, he⟩

/-! ## Excuses -/

section
variable {rigor : Rigor} {e : Error}

/-- What is made of the second run is excused, too, if it ends with what has become of the
    error. -/
theorem Excuses.map {e' : Error} {second : Option (Except Error α × Context)}
    {second' : Option (Except Error β × Context)} (h : Excuses rigor e second)
    (hkind : e'.cause.kind = e.cause.kind)
    (hanswer : (∀ r c, second = some (r, c) → r = .error e) →
      ∀ r c, second' = some (r, c) → r = .error e') : Excuses rigor e' second' := by
  cases rigor with
  | always | answers => exact h
  | values | limits => trivial
  | errors => exact h.imp hkind.trans hanswer

theorem Excuses.bind {y : Engine α} (h : Excuses rigor e (y.answer? c)) (g : α → Engine β) :
    Excuses rigor e ((y >>= g).answer? c) := by
  refine h.map rfl fun herror r c₁ hy => ?_
  rcases gives_bind.1 hy with ⟨a, c₂, h₂, -⟩ | ⟨e', h₂, rfl⟩
  · cases herror _ _ h₂
  · cases herror _ _ h₂
    rfl

theorem Excuses.within {y : Engine α} (h : Excuses rigor e (y.answer? c)) (frame : Frame) :
    Excuses rigor (e.within frame) ((Engine.within frame y).answer? c) := by
  refine h.map rfl fun herror r c₁ hy => ?_
  obtain ⟨r₁, h₁, rfl⟩ := gives_within.1 hy
  rw [herror _ _ h₁]
  rfl

/-- Of a list that runs in order it is the first error that counts. -/
theorem Excuses.runAll {y : Engine Unit} (h : Excuses rigor e (y.answer? c))
    (ys : List (Engine Unit)) : Excuses rigor e ((Engine.runAll (y :: ys)).answer? c) := by
  refine h.map rfl fun herror r c₂ hy => ?_
  obtain ⟨r₁, c₁, r₂, h₁, -, rfl⟩ := gives_runAll_cons.1 hy
  rw [herror _ _ h₁]
  rfl

theorem Excuses.runAll_tail {y : Engine Unit} {ys : List (Engine Unit)}
    (hy : y.Gives c (.ok ()) c') (h : Excuses rigor e ((Engine.runAll ys).answer? c')) :
    Excuses rigor e ((Engine.runAll (y :: ys)).answer? c) := by
  refine h.map rfl fun herror r c₂ hx => ?_
  obtain ⟨r₁, c₁, r₂, h₁, h₂, rfl⟩ := gives_runAll_cons.1 hx
  cases hy.symm.trans h₁
  rw [herror _ _ h₂]
  rfl

/-- The same error is excused wherever some error is. -/
theorem Excuses.of_gives {e' : Error} {second : Option (Except Error β × Context)}
    (h : Excuses rigor e' second) {y : Engine α} (hy : y.Gives c (.error e) c') :
    Excuses rigor e (y.answer? c) := by
  cases rigor with
  | always | answers => exact h
  | values | limits => trivial
  | errors =>
    refine Or.inr fun r c₁ hx => ?_
    cases hy.symm.trans hx
    rfl

end

/-! ## Exemptions -/

section
variable {rigor : Rigor}

theorem Exempts.bind {y : Engine α} (h : Exempts rigor (y.answer? c)) (g : α → Engine β) :
    Exempts rigor ((y >>= g).answer? c) := by
  cases rigor with
  | always | values | errors => exact h
  | limits => exact Exceeds.bind h g
  | answers =>
    replace h : y.answer? c = none := h
    rw [answer?_bind, h]
    rfl

theorem Exempts.within {y : Engine α} (h : Exempts rigor (y.answer? c)) (frame : Frame) :
    Exempts rigor ((Engine.within frame y).answer? c) := by
  cases rigor with
  | always | values | errors => exact h
  | limits => exact Exceeds.within h frame
  | answers =>
    replace h : y.answer? c = none := h
    rw [answer?_within, h]
    rfl

theorem Exempts.runAll {y : Engine Unit} (h : Exempts rigor (y.answer? c))
    (ys : List (Engine Unit)) : Exempts rigor ((Engine.runAll (y :: ys)).answer? c) := by
  cases rigor with
  | always | values | errors => exact h
  | limits => exact Exceeds.runAll h ys
  | answers =>
    refine Option.eq_none_iff_forall_ne_some.2 fun p hp => ?_
    obtain ⟨r₁, c₁, r₂, h₁, -, -⟩ := gives_runAll_cons.1 hp
    cases (show y.answer? c = none from h).symm.trans h₁

/-- If the first computation of a list ends with an error, then it is this error that counts. -/
theorem Exempts.runAll_tail {y : Engine Unit} {ys : List (Engine Unit)} {r : Except Error Unit}
    (hy : y.Gives c r c') (h : Exempts rigor ((Engine.runAll ys).answer? c')) :
    (∃ e, r = .error e ∧ Excuses rigor e ((Engine.runAll (y :: ys)).answer? c)) ∨
      Exempts rigor ((Engine.runAll (y :: ys)).answer? c) := by
  cases rigor with
  | always | values | errors => exact h.elim
  | limits =>
    rcases r with e | ⟨⟨⟩⟩
    · exact Or.inl ⟨e, rfl, trivial⟩
    · refine Or.inr fun r c₃ hx => ?_
      obtain ⟨r₃, c₄, r₄, h₃, h₄, rfl⟩ := gives_runAll_cons.1 hx
      cases hy.symm.trans h₃
      exact h _ _ h₄
  | answers =>
    refine Or.inr (Option.eq_none_iff_forall_ne_some.2 fun p hp => ?_)
    obtain ⟨r₃, c₄, r₄, h₃, h₄, -⟩ := gives_runAll_cons.1 hp
    cases hy.symm.trans h₃
    cases (show (Engine.runAll ys).answer? c' = none from h).symm.trans h₄

end

/-! ## Echoes -/

section
variable {rigor : Rigor} {R : Context → Context → Prop}

theorem Echoes.of_eq {first second : Option (Except Error α × Context)} (h : first = second) :
    Echoes rigor Eq first second := by
  rintro r c rfl
  exact Or.inl ⟨c, h.symm, rfl⟩

/-- A run without an answer is echoed by every run. -/
theorem echoes_none (second : Option (Except Error α × Context)) :
    Echoes rigor R none second := by
  rintro _ _ ⟨⟩

theorem echoes_some (r : Except Error α) (hR : R c c') :
    Echoes rigor R (some (r, c)) (some (r, c')) := by
  rintro _ _ ⟨⟩
  exact Or.inl ⟨c', rfl, hR⟩

theorem echoes_pure (a : α) (hR : R c c') :
    Echoes rigor R ((pure a : Engine α).answer? c) ((pure a : Engine α).answer? c') :=
  echoes_some _ hR

theorem echoes_throw (e : Error) (hR : R c c') :
    Echoes rigor R ((throw e : Engine α).answer? c) ((throw e : Engine α).answer? c') :=
  echoes_some _ hR

theorem echoes_fail (cause : Cause) (hR : R c c') :
    Echoes rigor R ((fail cause : Engine α).answer? c) ((fail cause : Engine α).answer? c') :=
  echoes_throw _ hR

theorem echoes_modify {f g : Context → Context} (hR : R (f c) (g c')) :
    Echoes rigor R ((modify f : Engine PUnit).answer? c)
      ((modify g : Engine PUnit).answer? c') :=
  echoes_some (.ok PUnit.unit) hR

theorem echoes_ofOption {o o' : Option α} (h : ∀ a, o = some a → o' = some a) (hR : R c c') :
    Echoes rigor R ((ofOption o).answer? c) ((ofOption o').answer? c') := by
  rcases o with _ | a
  · exact echoes_none _
  · rw [h a rfl]
    exact echoes_pure a hR

theorem echoes_ofExcept (x : Except Cause α) (hR : R c c') :
    Echoes rigor R ((ofExcept x).answer? c) ((ofExcept x).answer? c') := by
  cases x with
  | ok a => exact echoes_pure a hR
  | error cause => exact echoes_fail cause hR

/-- What runs behind a computation is an echo if it is one from where both runs of the computation
    end. -/
theorem Echoes.bind_of_both {x y : Engine α} {f g : α → Engine β}
    (h : Echoes rigor R (x.answer? c) (y.answer? c'))
    (hf : ∀ a c₁ c₁', x.Gives c (.ok a) c₁ → y.Gives c' (.ok a) c₁' → R c₁ c₁' →
      Echoes rigor R ((f a).answer? c₁) ((g a).answer? c₁')) :
    Echoes rigor R ((x >>= f).answer? c) ((y >>= g).answer? c') := by
  intro r c₂ hx
  rcases gives_bind.1 hx with ⟨a, c₁, h₁, h₂⟩ | ⟨e, h₁, rfl⟩
  · rcases h _ _ h₁ with ⟨c₁', hy, hR⟩ | ⟨e, he, -⟩ | hexempt
    · rw [answer?_bind, hy]
      exact hf a c₁ c₁' h₁ hy hR _ _ h₂
    · cases he
    · exact Or.inr (Or.inr (hexempt.bind g))
  · rcases h _ _ h₁ with ⟨c₁', hy, hR⟩ | ⟨e', he, hexcuse⟩ | hexempt
    · exact Or.inl ⟨c₁', by rw [answer?_bind, hy]; rfl, hR⟩
    · cases he
      exact Or.inr (Or.inl ⟨e, rfl, hexcuse.bind g⟩)
    · exact Or.inr (Or.inr (hexempt.bind g))

theorem Echoes.bind {x y : Engine α} {f g : α → Engine β}
    (h : Echoes rigor R (x.answer? c) (y.answer? c'))
    (hf : ∀ a c₁ c₁', x.Gives c (.ok a) c₁ → R c₁ c₁' →
      Echoes rigor R ((f a).answer? c₁) ((g a).answer? c₁')) :
    Echoes rigor R ((x >>= f).answer? c) ((y >>= g).answer? c') :=
  h.bind_of_both fun a c₁ c₁' hx _ => hf a c₁ c₁' hx

theorem Echoes.get_bind {f g : Context → Engine β}
    (h : Echoes rigor R ((f c).answer? c) ((g c').answer? c')) :
    Echoes rigor R (((get : Engine Context) >>= f).answer? c)
      (((get : Engine Context) >>= g).answer? c') := by
  rw [answer?_bind, answer?_bind]
  exact h

/-- Both runs go on from the definition of a number, if the first one finds it. -/
theorem Echoes.definition_bind {id : DefinitionId} {f g : Definition → Engine β}
    (h : ∀ d, c.definition? id = some d → ∃ d', c'.definition? id = some d' ∧
      Echoes rigor R ((f d).answer? c) ((g d').answer? c')) :
    Echoes rigor R ((definition id >>= f).answer? c) ((definition id >>= g).answer? c') := by
  have hdefinition : ∀ {c : Context} {d : Definition} (f : Definition → Engine β),
      c.definition? id = some d → (definition id >>= f).answer? c = (f d).answer? c := by
    intro c d f hd
    simp only [definition, bind_assoc, answer?_bind, answer?_get, Option.bind_some, hd, ofOption,
      answer?_pure]
  rcases hd : c.definition? id with _ | d
  · have hnone : (definition id >>= f).answer? c = none := by
      simp only [definition, bind_assoc, answer?_bind, answer?_get, Option.bind_some, hd, ofOption]
      rfl
    rw [hnone]
    exact echoes_none _
  · obtain ⟨d', hd', hf⟩ := h d hd
    rw [hdefinition f hd, hdefinition g hd']
    exact hf

theorem Echoes.within {x y : Engine α} (h : Echoes rigor R (x.answer? c) (y.answer? c'))
    (frame : Frame) : Echoes rigor R ((Engine.within frame x).answer? c)
      ((Engine.within frame y).answer? c') := by
  intro r c₁ hx
  obtain ⟨r₁, h₁, rfl⟩ := gives_within.1 hx
  rcases h _ _ h₁ with ⟨c₁', hy, hR⟩ | ⟨e, rfl, hexcuse⟩ | hexempt
  · exact Or.inl ⟨c₁', by rw [answer?_within, hy]; rfl, hR⟩
  · exact Or.inr (Or.inl ⟨_, rfl, hexcuse.within frame⟩)
  · exact Or.inr (Or.inr (hexempt.within frame))

/-- A list that runs in order is an echo if its first computation is, and the others are from where
    both runs of the first one end. -/
theorem Echoes.runAll_cons_of_both {x y : Engine Unit} {xs ys : List (Engine Unit)}
    (h : Echoes rigor R (x.answer? c) (y.answer? c'))
    (hrest : ∀ {r c₁ c₁'}, x.Gives c r c₁ → y.Gives c' r c₁' → R c₁ c₁' →
      Echoes rigor R ((Engine.runAll xs).answer? c₁) ((Engine.runAll ys).answer? c₁')) :
    Echoes rigor R ((Engine.runAll (x :: xs)).answer? c)
      ((Engine.runAll (y :: ys)).answer? c') := by
  intro r c₂ hx
  obtain ⟨r₁, c₁, r₂, h₁, h₂, rfl⟩ := gives_runAll_cons.1 hx
  rcases h _ _ h₁ with ⟨c₁', hy₁, hR₁⟩ | ⟨e, rfl, hexcuse⟩ | hexempt
  · rcases hrest h₁ hy₁ hR₁ _ _ h₂ with ⟨c₂', hy₂, hR₂⟩ | ⟨e, rfl, hexcuse⟩ | hexempt
    · exact Or.inl ⟨c₂', gives_runAll_cons.2 ⟨r₁, c₁', r₂, hy₁, hy₂, rfl⟩, hR₂⟩
    · rcases r₁ with e₁ | ⟨⟨⟩⟩
      · exact Or.inr (Or.inl ⟨e₁, rfl, (hexcuse.of_gives hy₁).runAll _⟩)
      · exact Or.inr (Or.inl ⟨e, rfl, hexcuse.runAll_tail hy₁⟩)
    · rcases hexempt.runAll_tail hy₁ with ⟨e₁, rfl, hexcuse⟩ | hexempt
      · exact Or.inr (Or.inl ⟨e₁, rfl, hexcuse⟩)
      · exact Or.inr (Or.inr hexempt)
  · exact Or.inr (Or.inl ⟨e, rfl, hexcuse.runAll _⟩)
  · exact Or.inr (Or.inr (hexempt.runAll _))

theorem Echoes.runAll_cons {x y : Engine Unit} {xs ys : List (Engine Unit)}
    (h : Echoes rigor R (x.answer? c) (y.answer? c'))
    (hrest : ∀ {c c'}, R c c' →
      Echoes rigor R ((Engine.runAll xs).answer? c) ((Engine.runAll ys).answer? c')) :
    Echoes rigor R ((Engine.runAll (x :: xs)).answer? c)
      ((Engine.runAll (y :: ys)).answer? c') :=
  h.runAll_cons_of_both fun _ _ => hrest

/-- Computations for a list are an echo if each of them is from where those before it end in both
    runs. -/
theorem Echoes.runAll_of_both {ι : Type} {f g : ι → Engine Unit} {l : List ι}
    (h : ∀ before i after, l = before ++ i :: after → ∀ {r c₁ c₁'},
      (Engine.runAll (before.map f)).Gives c r c₁ → (Engine.runAll (before.map g)).Gives c' r c₁' →
      R c₁ c₁' → Echoes rigor R ((f i).answer? c₁) ((g i).answer? c₁')) (hR : R c c') :
    Echoes rigor R ((Engine.runAll (l.map f)).answer? c)
      ((Engine.runAll (l.map g)).answer? c') := by
  induction l generalizing c c' with
  | nil => exact echoes_pure () hR
  | cons i l ih =>
    have hi := h [] i l rfl (gives_pure.2 ⟨rfl, rfl⟩) (gives_pure.2 ⟨rfl, rfl⟩) hR
    refine hi.runAll_cons_of_both fun {r c₁ c₁'} hf hg hR₁ => ih ?_ hR₁
    rintro before j after rfl r' c₂ c₂' hbefore hbefore' hR₂
    exact h (i :: before) j after rfl (gives_runAll_cons.2 ⟨r, c₁, r', hf, hbefore, rfl⟩)
      (gives_runAll_cons.2 ⟨r, c₁', r', hg, hbefore', rfl⟩) hR₂

theorem Echoes.runAll {ι : Type} {f g : ι → Engine Unit} {l : List ι}
    (h : ∀ i ∈ l, ∀ {c c'}, R c c' → Echoes rigor R ((f i).answer? c) ((g i).answer? c'))
    (hR : R c c') :
    Echoes rigor R ((Engine.runAll (l.map f)).answer? c)
      ((Engine.runAll (l.map g)).answer? c') :=
  .runAll_of_both (fun _ i _ he _ _ _ _ _ => h i (by simp [he])) hR

theorem Echoes.forM {ι : Type} {f g : ι → Engine PUnit} {l : List ι}
    (h : ∀ i ∈ l, ∀ {c c'}, R c c' → Echoes rigor R ((f i).answer? c) ((g i).answer? c'))
    (hR : R c c') :
    Echoes rigor R (Engine.answer? (l.forM f) c) (Engine.answer? (l.forM g) c') := by
  induction l generalizing c c' with
  | nil => exact echoes_pure PUnit.unit hR
  | cons i l ih =>
    exact (h i (by simp) hR).bind fun _ _ _ _ hR₁ => ih (fun j hj => h j (by simp [hj])) hR₁

/-- However the first run ends, a close echo ends so, too. -/
theorem Echoes.gives {x y : Engine α} {r : Except Error α} {c₁ : Context}
    (h : Echoes .always R (x.answer? c) (y.answer? c')) (hx : x.Gives c r c₁) :
    ∃ c₁', y.Gives c' r c₁' ∧ R c₁ c₁' := by
  rcases h _ _ hx with hy | ⟨_, -, hexcuse⟩ | hexempt
  · exact hy
  · exact hexcuse.elim
  · exact hexempt.elim

/-- Where both runs have an answer, the second one is an echo if it ends as the first does. -/
theorem echoes_answers {x y : Engine α} : Echoes .answers R (x.answer? c) (y.answer? c') ↔
    ∀ {r c₁ r' c₁'}, x.Gives c r c₁ → y.Gives c' r' c₁' → r' = r ∧ R c₁ c₁' := by
  constructor
  · intro h r c₁ r' c₁' hx hy
    rcases h _ _ hx with ⟨c₂, hy', hR⟩ | ⟨_, -, hexcuse⟩ | hexempt
    · cases hy.symm.trans hy'
      exact ⟨rfl, hR⟩
    · exact hexcuse.elim
    · cases (show y.answer? c' = none from hexempt).symm.trans hy
  · intro h r c₁ hx
    rcases hy : y.answer? c' with _ | ⟨r', c₁'⟩
    · exact Or.inr (Or.inr rfl)
    · obtain ⟨rfl, hR⟩ := h hx hy
      exact Or.inl ⟨c₁', rfl, hR⟩

/-! ## Nesting -/

/-- A pass is exempted with the one that is nested in it. -/
theorem Exempts.leave {answer : Option (Except Error α × Context)} (h : Exempts rigor answer)
    (f : Error → Error) (hf : ∀ e, (f e).cause.kind = e.cause.kind) (g : Context → Context) :
    Exempts rigor (answer.map fun p => (p.1.mapError f, g p.2)) := by
  cases rigor with
  | always | values | errors => exact h
  | limits =>
    intro r c₃ hx
    obtain ⟨⟨r₂, c₂⟩, h₂, hr⟩ := Option.map_eq_some_iff.1 hx
    cases hr
    obtain ⟨e, rfl, he⟩ := h _ _ h₂
    exact ⟨_, rfl, (hf e).trans he⟩
  | answers =>
    replace h : answer = none := h
    rw [h]
    rfl

/-- A nested pass echoes another one if it is refused only where this is excused, and echoes it
    one level deeper where neither is refused. -/
theorem Echoes.nested {S : Context → Context → Prop} {x y : Engine Unit} {frame : Frame}
    (hrefused : ∀ limit, c.refusal? = some limit → c'.refusal? = some limit ∧ R c c')
    (hopen : c.refusal? = none → c'.refusal? = none ∨ rigor = .limits)
    (h : c.refusal? = none → c'.refusal? = none →
      Echoes rigor S (x.answer? (c.atDepth (c.depth + 1))) (y.answer? (c'.atDepth (c'.depth + 1))))
    (hleave : ∀ {c₁ c₁'}, S c₁ c₁' →
      R (c₁.atDepth (c₁.depth - 1)) (c₁'.atDepth (c₁'.depth - 1))) :
    Echoes rigor R ((Engine.nested frame x).answer? c) ((Engine.nested frame y).answer? c') := by
  rcases hc : c.refusal? with _ | limit
  · rw [answer?_nested_of_open hc]
    rcases hc' : c'.refusal? with _ | limit
    · rw [answer?_nested_of_open hc']
      intro r c₂ hx
      obtain ⟨⟨r₁, c₁⟩, h₁, hr⟩ := Option.map_eq_some_iff.1 hx
      cases hr
      rcases h hc hc' _ _ h₁ with ⟨c₁', hy, hR⟩ | ⟨e, rfl, hexcuse⟩ | hexempt
      · exact Or.inl ⟨_, by rw [hy]; rfl, hleave hR⟩
      · refine Or.inr (Or.inl ⟨_, rfl, hexcuse.map rfl fun herror r c₃ hy => ?_⟩)
        obtain ⟨⟨r₂, c₂⟩, h₂, hr⟩ := Option.map_eq_some_iff.1 hy
        cases hr
        rw [herror _ _ h₂]
        rfl
      · exact Or.inr (Or.inr (hexempt.leave (fun e => e.within frame) (fun _ => rfl)
          fun c => c.atDepth (c.depth - 1)))
    · rw [answer?_nested_of_refusal hc']
      have hrigor : rigor = .limits := by
        rcases hopen hc with h | h
        · cases hc'.symm.trans h
        · exact h
      subst hrigor
      exact fun _ _ _ => Or.inr (Or.inr (exceeds_of_refused limit))
  · obtain ⟨hc', hR⟩ := hrefused limit hc
    rw [answer?_nested_of_refusal hc, answer?_nested_of_refusal hc']
    exact echoes_some _ hR

end

end Engine

end Rubric
