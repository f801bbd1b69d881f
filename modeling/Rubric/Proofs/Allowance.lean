/-
  Rubric — how deep passes may nest.

  A pass is given a number of levels.  With too few of them it has no answer;
  with enough of them it ends in the same way however many there are.

  * `Pass.node`, `Pass.handle`: the two passes as one family;
  * `Pass.Parallel`: the pass of a node, from contexts that a relation joins, is
    an echo if the passes of other nodes are; `parallel_eq`: from one context it
    always is;
  * **`Pass.handle_mono`**: more levels make no difference to a pass that ends;
  * **`Call.Ends.unique`**: a call ends in one way only.
-/
import Rubric.Proofs.Mirror

namespace Rubric

open Engine

variable {c c' c₁ c₂ : Context} {r r₁ r₂ : Except Error Unit} {id : DefinitionId} {n m : Nat}

/-! ## The passes -/

namespace Pass

/-- The pass of one node over those of others. -/
def node : Pass → (DefinitionId → Engine Unit) → DefinitionId → Engine Unit
  | commands => commandPass
  | fonts => fontPass

/-- The pass of a node, nested at most `n` deep. -/
def handle : Pass → Nat → DefinitionId → Engine Unit
  | commands => handleCommands
  | fonts => handleFonts

/-- The frame that errors of the pass of a node go through. -/
def frame : Pass → DefinitionId → Option String → Frame
  | commands => .commands
  | fonts => .fonts

/-- The call for the pass of a node. -/
def call : Pass → DefinitionId → Call
  | commands => .commands
  | fonts => .fonts

variable {pass : Pass}

theorem handle_zero (id : DefinitionId) : pass.handle 0 id = endless := by
  cases pass <;> rfl

theorem handle_succ (n : Nat) (id : DefinitionId) :
    pass.handle (n + 1) id = definition id >>= fun d =>
      nested (pass.frame id d.key) (pass.node (pass.handle n) id) := by
  cases pass <;> rfl

theorem pass_call (n : Nat) (id : DefinitionId) : (pass.call id).pass n = pass.handle n id := by
  cases pass <;> rfl

/-- From contexts that `R` joins, the pass of a node is an echo if those of other nodes are. -/
def Parallel (pass : Pass) (rigor : Rigor) (R : Context → Context → Prop) : Prop :=
  ∀ {handle handle' : DefinitionId → Engine Unit},
    (∀ id {c c'}, R c c' → Echoes rigor R ((handle id).answer? c) ((handle' id).answer? c')) →
    ∀ id {c c'}, R c c' →
      Echoes rigor R ((pass.node handle id).answer? c) ((pass.node handle' id).answer? c')

/-- Both passes are echoes from contexts that agree in their definitions and in whatever else
    passes look at. -/
theorem parallel {rigor : Rigor} {R : Context → Context → Prop} (pass : Pass)
    (hm : ∀ handle handle', Mirrors handle handle' (fun _ _ _ => True) (fun _ _ _ => True)
      (fun _ _ _ _ _ => True) (fun _ _ _ => True) R)
    (hdefinition : ∀ {c c'}, R c c' → ∀ id, c'.definition? id = c.definition? id)
    (hconvert : ∀ id inlines {c c'}, R c c' → Echoes rigor R
      ((convertContent id inlines).answer? c) ((convertContent id inlines).answer? c')) :
    pass.Parallel rigor R := by
  intro handle handle' hh id c c' hR
  cases pass with
  | commands =>
    exact (hm handle handle').echoes_commandPass (fun id _ _ _ => hh id) trivial hR
  | fonts => exact echoes_fontPass hdefinition hconvert hh id hR

end Pass

/-- A context agrees with itself. -/
theorem mirrors_eq (handle handle' : DefinitionId → Engine Unit) :
    Mirrors handle handle' (fun _ _ _ => True) (fun _ _ _ => True) (fun _ _ _ _ _ => True)
      (fun _ _ _ => True) Eq where
  lookup? := by rintro c _ rfl _ _; rfl
  commands := by rintro c _ rfl; rfl
  analyzers := by rintro c _ rfl; rfl
  equivalence := by rintro c _ rfl; rfl
  lineSeparator := by rintro c _ rfl; rfl
  syllableSeparator := by rintro c _ rfl; rfl
  effectiveTags? := by rintro c _ rfl _; rfl
  outline := by rintro c _ rfl _; rfl
  counter := by rintro c _ rfl _; rfl
  text := by rintro c _ _ _ rfl _ h; exact h
  inlineSegments? := by rintro c _ _ _ _ rfl h; exact ⟨_, h, rfl, rfl⟩
  segments? := by rintro c _ _ _ rfl h; exact ⟨_, h, rfl, rfl⟩
  reference := by rintro c _ rfl _ _; rfl
  number := by rintro c _ rfl _; rfl
  boolean := by rintro c _ rfl _ _ _; exact ⟨rfl, rfl⟩
  route := by rintro c _ rfl _ _; rfl
  handled := by rintro c _ rfl _ _; rfl
  target := by rintro c _ rfl _ _; rfl
  readable_of_core _ _ _ := trivial
  goesOnTo _ _ _ _ _ := trivial
  source _ _ _ _ _ _ _ := trivial
  span _ := trivial
  later _ _ _ _ := trivial
  executes _ _ _ _ := trivial
  inserts _ _ _ _ _ := trivial
  reads _ _ _ _ _ := trivial

theorem Pass.parallel_eq (pass : Pass) (rigor : Rigor) : pass.Parallel rigor Eq := by
  refine pass.parallel mirrors_eq ?_ ?_
  · rintro c _ rfl _; rfl
  · rintro id inlines c _ rfl; exact .of_eq rfl

/-! ## More levels -/

/-- A pass with more levels echoes one with fewer. -/
theorem Pass.echoes_handle (pass : Pass) (h : n ≤ m) (id : DefinitionId) (c : Context) :
    Echoes .always Eq ((pass.handle n id).answer? c) ((pass.handle m id).answer? c) := by
  induction n generalizing m id c with
  | zero => rw [handle_zero]; exact echoes_none _
  | succ n ih =>
    obtain ⟨m, rfl⟩ : ∃ m', m = m' + 1 := ⟨m - 1, by omega⟩
    rw [handle_succ, handle_succ]
    refine .definition_bind fun d hd => ⟨d, hd, ?_⟩
    refine .nested (S := Eq) (fun limit hl => ⟨hl, rfl⟩) Or.inl (fun _ _ => ?_)
      (by rintro _ _ rfl; rfl)
    refine pass.parallel_eq .always (fun id c _ hc => ?_) id rfl
    rw [← hc]
    exact ih (by omega) id c

/-- More levels make no difference to a pass that ends. -/
theorem Pass.handle_mono (pass : Pass) (h : n ≤ m) (hx : (pass.handle n id).Gives c r c') :
    (pass.handle m id).Gives c r c' := by
  obtain ⟨_, hy, rfl⟩ := (pass.echoes_handle h id c).gives hx
  exact hy

/-- More levels make no difference to a call that ends. -/
theorem Call.pass_mono {call : Call} (h : n ≤ m) (hx : (call.pass n).Gives c r c') :
    (call.pass m).Gives c r c' := by
  cases call with
  | commands id => exact Pass.handle_mono .commands h hx
  | fonts id => exact Pass.handle_mono .fonts h hx
  | document id =>
    have hecho : Echoes .always Eq ((resolveDocument n id).answer? c)
        ((resolveDocument m id).answer? c) := by
      refine .get_bind ((echoes_ofOption (fun _ hd => hd) rfl).bind fun document c _ _ hc => ?_)
      refine .runAll (fun version _ c _ hc => ?_) hc
      subst hc
      refine (Pass.echoes_handle .commands h _ _).bind fun _ c _ _ hc => ?_
      subst hc
      exact Pass.echoes_handle .fonts h _ _
    obtain ⟨_, hy, rfl⟩ := hecho.gives hx
    exact hy

/-- **A call ends in one way only.** -/
theorem Call.Ends.unique {call : Call} (h₁ : call.Ends c r₁ c₁) (h₂ : call.Ends c r₂ c₂) :
    r₁ = r₂ ∧ c₁ = c₂ := by
  obtain ⟨n, h₁⟩ := h₁
  obtain ⟨m, h₂⟩ := h₂
  have h₁' := Call.pass_mono (Nat.le_max_left n m) h₁
  have h₂' := Call.pass_mono (Nat.le_max_right n m) h₂
  have he := Option.some.inj (h₁'.symm.trans h₂')
  exact ⟨congrArg Prod.fst he, congrArg Prod.snd he⟩

end Rubric
