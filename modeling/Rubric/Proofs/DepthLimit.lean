/-
  Rubric — the depth limit.

  The same pass of the same context, once without a depth limit and once under
  one.  As long as both go on they do the same.

  * `Context.limitedTo`: a context under another depth limit;
  * `Context.Twins`: one context under two limits, with a number of passes under way;
  * `Pass.Nests`: how deep the passes of a node nest;
  * **`ends_under_limit`**: a limit that is as deep makes no difference, and under a
    lower one the pass ends with no other answer than that the limit is reached;
  * `endless_under_limit`: it need not end then, for all that.
-/
import Mathlib.Order.Lattice.Nat
import Rubric.Proofs.Ending
import Rubric.Proofs.Reachable

namespace Rubric

open Engine

variable {c c' c₁ c₂ : Context} {id : DefinitionId} {pass : Pass} {limit limit' : Option Nat}
  {k m n n' d : Nat}

namespace Context

/-- The context under another depth limit, or under none. -/
def limitedTo (c : Context) (limit : Option Nat) : Context :=
  { c with settings := { c.settings with depthLimit := limit } }

/-! ## What does not depend on the limit -/

theorem limitedTo_eq_self (h : c.settings.depthLimit = limit) : c.limitedTo limit = c := by
  subst h; rfl

theorem effectiveTags?_limitedTo (c : Context) (limit : Option Nat) :
    (c.limitedTo limit).effectiveTags? = c.effectiveTags? :=
  effectiveTags?_of_definitions_eq rfl

theorem segments?_limitedTo (c : Context) (limit : Option Nat) :
    (c.limitedTo limit).segments? = c.segments? :=
  segments?_of_definitions_eq rfl

theorem modifyFootnotes_limitedTo (c : Context) (limit : Option Nat)
    (document : Option DocumentId) (f : FootnoteList → FootnoteList) :
    (c.limitedTo limit).modifyFootnotes document f =
      (c.modifyFootnotes document f).limitedTo limit := by
  cases document <;> rfl

theorem addBoolean_limitedTo (c : Context) (limit : Option Nat) (key : String) (value : Bool) :
    (c.limitedTo limit).addBoolean none key value =
      ((c.addBoolean none key value).1, (c.addBoolean none key value).2.limitedTo limit) := by
  have hglobal : (c.limitedTo limit).keysOf none = c.keysOf none := rfl
  simp only [addBoolean, addDefinition, registerKey, hglobal]
  cases (c.keysOf none).get? key <;> rfl

/-! ## One context under two limits -/

/-- One context under two limits, with `k` passes under way. -/
structure Twins (limit limit' : Option Nat) (k : Nat) (c c' : Context) : Prop where
  first : c.settings.depthLimit = limit
  second : c' = c.limitedTo limit'
  depth : c.depth = k

theorem twins_self (c : Context) (limit limit' : Option Nat) :
    Twins limit limit' c.depth (c.limitedTo limit) (c.limitedTo limit') :=
  ⟨rfl, rfl, rfl⟩

namespace Twins

variable (h : Twins limit limit' k c c')
include h

/-- Changes that have nothing to do with the limit leave the contexts as they should be. -/
theorem map {f : Context → Context} (hf : ∀ limit, f (c.limitedTo limit) = (f c).limitedTo limit)
    (hdepth : (f c).depth = c.depth) : Twins limit limit' k (f c) (f c') := by
  obtain ⟨hlimit, rfl, hk⟩ := h
  refine ⟨?_, hf limit', hdepth.trans hk⟩
  rw [← limitedTo_eq_self hlimit, hf]
  rfl

theorem modifyFootnotes (document : Option DocumentId) (f : FootnoteList → FootnoteList) :
    Twins limit limit' k (c.modifyFootnotes document f) (c'.modifyFootnotes document f) :=
  h.map (f := fun c => c.modifyFootnotes document f)
    (fun limit => c.modifyFootnotes_limitedTo limit document f) (c.depth_modifyFootnotes document f)

theorem limit_second : c'.settings.depthLimit = limit' := by
  rw [h.second]
  rfl

theorem depth_second : c'.depth = k := by
  rw [h.second]
  exact h.depth

/-- Below its limit the first context refuses no pass. -/
theorem refusal?_first (hlt : ∀ n, limit = some n → k < n) : c.refusal? = none := by
  rw [refusal?_eq_none, h.first, h.depth]
  exact hlt

/-- Below its own limit the second one refuses none. -/
theorem refusal?_second (hlt : ∀ n, limit' = some n → k < n) : c'.refusal? = none := by
  rw [refusal?_eq_none, h.limit_second, h.depth_second]
  exact hlt

theorem enter :
    Twins limit limit' (k + 1) (c.atDepth (c.depth + 1)) (c'.atDepth (c'.depth + 1)) := by
  obtain ⟨hlimit, rfl, rfl⟩ := h
  exact ⟨hlimit, rfl, rfl⟩

end Twins

theorem Twins.leave (h : Twins limit limit' (k + 1) c c') :
    Twins limit limit' k (c.atDepth (c.depth - 1)) (c'.atDepth (c'.depth - 1)) := by
  obtain ⟨hlimit, rfl, hk⟩ := h
  exact ⟨hlimit, rfl, by rw [hk]; rfl⟩

end Context

open Context

/-- The two contexts agree in all that the command pass looks at. -/
theorem mirrors_twins (limit limit' : Option Nat) (k : Nat)
    (handle handle' : DefinitionId → Engine Unit) :
    Mirrors handle handle' (fun _ _ _ => True) (fun _ _ _ => True) (fun _ _ _ _ _ => True)
      (fun _ _ _ => True) (Twins limit limit' k) where
  lookup? := by rintro c _ ⟨-, rfl, -⟩ _ _; rfl
  commands := by rintro c _ ⟨-, rfl, -⟩; rfl
  analyzers := by rintro c _ ⟨-, rfl, -⟩; rfl
  equivalence := by rintro c _ ⟨-, rfl, -⟩; rfl
  lineSeparator := by rintro c _ ⟨-, rfl, -⟩; rfl
  syllableSeparator := by rintro c _ ⟨-, rfl, -⟩; rfl
  effectiveTags? := by rintro c _ ⟨-, rfl, -⟩ id; rw [effectiveTags?_limitedTo]
  outline := by rintro c _ ⟨-, rfl, -⟩ _; rfl
  counter := by rintro c _ ⟨-, rfl, -⟩ document; cases document <;> rfl
  text := by
    rintro c _ _ _ ⟨-, rfl, -⟩ _ h
    rwa [inlineText?, inlineSegments?, segments?_limitedTo]
  inlineSegments? := by
    rintro c _ _ _ _ ⟨hlimit, rfl, hk⟩ h
    exact ⟨_, by rwa [inlineSegments?, segments?_limitedTo], rfl, hlimit, rfl, hk⟩
  segments? := by
    rintro c _ _ _ ⟨hlimit, rfl, hk⟩ h
    exact ⟨_, by rwa [segments?_limitedTo], rfl, hlimit, rfl, hk⟩
  reference := by rintro c _ ⟨hlimit, rfl, hk⟩ _ _; exact ⟨hlimit, rfl, hk⟩
  number h document := h.modifyFootnotes document _
  boolean {c c'} h value key _ := by
    refine ⟨by rw [h.second, addBoolean_limitedTo], ?_⟩
    refine h.map (f := fun c => (c.addBoolean none key value).2)
      (fun limit => by rw [addBoolean_limitedTo]) ?_
    obtain ⟨warnings, hmade⟩ := c.exists_addBoolean key value
    rw [hmade]; rfl
  route h document _ := h.modifyFootnotes document _
  handled := by rintro c _ ⟨hlimit, rfl, hk⟩ _ _; exact ⟨hlimit, rfl, hk⟩
  target := by rintro c _ ⟨hlimit, rfl, hk⟩ _ _; exact ⟨hlimit, rfl, hk⟩
  readable_of_core _ _ _ := trivial
  goesOnTo _ _ _ _ _ := trivial
  source _ _ _ _ _ _ _ := trivial
  span _ := trivial
  later _ _ _ _ := trivial
  executes _ _ _ _ := trivial
  inserts _ _ _ _ _ := trivial
  reads _ _ _ _ _ := trivial

/-- The conversion of a text is the same under both limits. -/
theorem echoes_convertContent_twins {rigor : Rigor} (id : DefinitionId) (inlines : List Inline)
    (h : Twins limit limit' k c c') : Echoes rigor (Twins limit limit' k)
      ((convertContent id inlines).answer? c) ((convertContent id inlines).answer? c') := by
  refine .get_bind ?_
  rw [show c'.effectiveTags? id = c.effectiveTags? id by
    rw [h.second, effectiveTags?_limitedTo]]
  refine (echoes_ofOption (fun _ ht => ht) h).bind fun tags c₁ c₁' htags h₁ => ?_
  obtain ⟨_, -, -, rfl⟩ := gives_ofOption.1 htags
  obtain rfl : c₁' = c' := h₁.second.trans h.second.symm
  refine .definition_bind fun d hd => ⟨d, by rw [h.second]; exact hd, ?_⟩
  refine echoes_some _ (h.map (f := fun c =>
    ((c.warnAll ((Inline.typedFontsList tags inlines).filterMap c.fonts.warning?)).modifyContent id
      fun content => content.resolveFonts (Inline.remap c.fonts tags)).rerouteFootnotes d.document
        (Inline.footnotes (Inline.remapList c.fonts tags inlines))) (fun limit => ?_) ?_)
  · cases d.document <;> rfl
  · cases d.document <;> rfl

/-- Under both limits the pass of a node is the same if the passes of other nodes are. -/
theorem Pass.parallel_twins (pass : Pass) (rigor : Rigor) (limit limit' : Option Nat) (k : Nat) :
    pass.Parallel rigor (Twins limit limit' k) := by
  refine pass.parallel (mirrors_twins limit limit' k) ?_ fun id inlines _ _ h =>
    echoes_convertContent_twins id inlines h
  rintro c _ ⟨-, rfl, -⟩ _
  rfl

/-! ## Passes under two limits -/

namespace Pass

/-- Passes that nest within the limit do what they do without it. -/
theorem echoes_within (h : Twins none (some n) k c c') (hle : k + m ≤ n) (id : DefinitionId) :
    Echoes .always (Twins none (some n) k) ((pass.handle m id).answer? c)
      ((pass.handle m id).answer? c') := by
  induction m generalizing k c c' id with
  | zero => rw [handle_zero]; exact echoes_none _
  | succ m ih =>
    rw [handle_succ]
    refine .definition_bind fun d hd => ⟨d, by rw [h.second]; exact hd, ?_⟩
    refine .nested (S := Twins none (some n) (k + 1)) (fun limit hlimit => ?_)
      (fun _ => Or.inl ?_) (fun _ _ => ?_) Twins.leave
    · rw [h.refusal?_first (by rintro _ ⟨⟩)] at hlimit
      cases hlimit
    · exact h.refusal?_second (by rintro _ ⟨⟩; omega)
    · exact pass.parallel_twins .always none (some n) (k + 1)
        (fun id _ _ h => ih h (by omega) id) id h.enter

/-- Where the limit is reached a pass ends with that error. -/
theorem exceeds_of_reached {r : Except Error Unit} (hlimit : c.settings.depthLimit = some n)
    (hle : n ≤ c.depth) (h : (pass.handle m id).Gives c r c₁) :
    ∃ e, r = .error e ∧ e.cause.kind = .depthExceeded := by
  rcases m with _ | m
  · rw [handle_zero] at h
    exact (gives_endless.1 h).elim
  · obtain ⟨d, -, h⟩ := gives_definition_bind.1 (handle_succ m id ▸ h)
    rw [Gives, answer?_nested_of_refusal (refusal?_eq_some.2 ⟨hlimit, hle⟩)] at h
    cases h
    exact ⟨_, rfl, rfl⟩

/-- Passes that end with a value under the limit nest within it, and do the same without it. -/
theorem echoes_released (h : Twins (some n) none k c c') (id : DefinitionId) :
    Echoes .values (Twins (some n) none k) ((pass.handle m id).answer? c)
      ((pass.handle (n - k) id).answer? c') := by
  induction m generalizing k c c' id with
  | zero => rw [handle_zero]; exact echoes_none _
  | succ m ih =>
    rcases Nat.lt_or_ge k n with hlt | hge
    · obtain ⟨j, hj⟩ : ∃ j, n - k = j + 1 := ⟨n - k - 1, by omega⟩
      rw [hj, handle_succ, handle_succ]
      refine .definition_bind fun d hd => ⟨d, by rw [h.second]; exact hd, ?_⟩
      refine .nested (S := Twins (some n) none (k + 1)) (fun limit hlimit => ?_)
        (fun _ => Or.inl ?_) (fun _ _ => ?_) Twins.leave
      · rw [h.refusal?_first (by rintro _ ⟨⟩; exact hlt)] at hlimit
        cases hlimit
      · exact h.refusal?_second (by rintro _ ⟨⟩)
      · refine pass.parallel_twins .values (some n) none (k + 1) (fun id _ _ h => ?_) id h.enter
        rw [show j = n - (k + 1) by omega]
        exact ih h id
    · intro r c₁ hx
      obtain ⟨e, rfl, -⟩ := exceeds_of_reached h.first (by rw [h.depth]; exact hge) hx
      exact Or.inr (Or.inl ⟨e, rfl, trivial⟩)

/-- If passes end with a value without the limit, then under it they do the same or reach it. -/
theorem echoes_limited (h : Twins none (some n) k c c') (id : DefinitionId) (j : Nat) :
    Echoes .limits (Twins none (some n) k) ((pass.handle m id).answer? c)
      ((pass.handle j id).answer? c') := by
  induction m generalizing k c c' id j with
  | zero => rw [handle_zero]; exact echoes_none _
  | succ m ih =>
    rcases j with _ | j
    · rw [handle_zero]
      exact fun _ _ _ => Or.inr (Or.inr exceeds_none)
    · rw [handle_succ, handle_succ]
      refine .definition_bind fun d hd => ⟨d, by rw [h.second]; exact hd, ?_⟩
      refine .nested (S := Twins none (some n) (k + 1)) (fun limit hlimit => ?_)
        (fun _ => Or.inr rfl) (fun _ _ => ?_) Twins.leave
      · rw [h.refusal?_first (by rintro _ ⟨⟩)] at hlimit
        cases hlimit
      · exact pass.parallel_twins .limits none (some n) (k + 1) (fun id _ _ h => ih h id j) id
          h.enter

/-- Under a limit no more levels are needed than it lets passes enter, and one to be refused at. -/
theorem echoes_enough (h : Twins (some n) (some n) k c c') (id : DefinitionId) :
    Echoes .always (Twins (some n) (some n) k) ((pass.handle m id).answer? c)
      ((pass.handle (n - k + 1) id).answer? c') := by
  induction m generalizing k c c' id with
  | zero => rw [handle_zero]; exact echoes_none _
  | succ m ih =>
    rw [handle_succ, handle_succ]
    refine .definition_bind fun d hd => ⟨d, by rw [h.second]; exact hd, ?_⟩
    have hsame : c'.refusal? = c.refusal? := by
      rw [refusal?, refusal?, h.limit_second, h.depth_second, h.first, h.depth]
    refine .nested (S := Twins (some n) (some n) (k + 1)) (fun limit hlimit => ?_)
      (fun hopen => Or.inl (hsame.trans hopen)) (fun hopen _ => ?_) Twins.leave
    · exact ⟨hsame.trans hlimit, h⟩
    · have hlt : k < n := h.depth ▸ refusal?_eq_none.1 hopen n h.first
      refine pass.parallel_twins .always (some n) (some n) (k + 1) (fun id _ _ h => ?_) id h.enter
      rw [show n - k = n - (k + 1) + 1 by omega]
      exact ih h id

/-- An error other than that the limit is reached is the same under a higher limit, if the pass
    ends there. -/
theorem echoes_raised (h : Twins (some n) (some n') k c c') (hle : n ≤ n') (id : DefinitionId) :
    Echoes .errors (Twins (some n) (some n') k) ((pass.handle m id).answer? c)
      ((pass.handle (n' - k + 1) id).answer? c') := by
  induction m generalizing k c c' id with
  | zero => rw [handle_zero]; exact echoes_none _
  | succ m ih =>
    rcases Nat.lt_or_ge k n with hlt | hge
    · rw [handle_succ, handle_succ]
      refine .definition_bind fun d hd => ⟨d, by rw [h.second]; exact hd, ?_⟩
      refine .nested (S := Twins (some n) (some n') (k + 1)) (fun limit hlimit => ?_)
        (fun _ => Or.inl ?_) (fun _ _ => ?_) Twins.leave
      · rw [h.refusal?_first (by rintro _ ⟨⟩; exact hlt)] at hlimit
        cases hlimit
      · exact h.refusal?_second (by rintro _ ⟨⟩; omega)
      · refine pass.parallel_twins .errors (some n) (some n') (k + 1) (fun id _ _ h => ?_) id
          h.enter
        rw [show n' - k = n' - (k + 1) + 1 by omega]
        exact ih h id
    · intro r c₁ hx
      obtain ⟨e, rfl, he⟩ := exceeds_of_reached h.first (by rw [h.depth]; exact hge) hx
      exact Or.inr (Or.inl ⟨e, rfl, Or.inl he⟩)

/-- The passes of a node nest `d` deep: with as many levels the pass of the node ends, with fewer
    it does not. -/
def Nests (pass : Pass) (c : Context) (id : DefinitionId) (d : Nat) : Prop :=
  IsLeast {n | (pass.handle n id).EndsFrom c} d

theorem Nests.pos (h : pass.Nests c id d) : 0 < d := by
  rcases d with _ | d
  · obtain ⟨r, c', hx⟩ := h.1
    rw [handle_zero] at hx
    exact (gives_endless.1 hx).elim
  · exact d.succ_pos

theorem exists_nests {r : Except Error Unit} (h : (pass.call id).Ends c r c₁) :
    ∃ d, pass.Nests c id d ∧ (pass.handle d id).Gives c r c₁ := by
  have hends : ∃ n, (pass.handle n id).EndsFrom c := by
    obtain ⟨n, hn⟩ := h
    rw [pass_call] at hn
    exact ⟨n, r, c₁, hn⟩
  have hnests : pass.Nests c id (sInf {n | (pass.handle n id).EndsFrom c}) := isLeast_csInf hends
  obtain ⟨r', c', hx⟩ := hnests.1
  have hends' : (pass.call id).Ends c r' c' := ⟨_, by rw [pass_call]; exact hx⟩
  obtain ⟨rfl, rfl⟩ := hends'.unique h
  exact ⟨_, hnests, hx⟩

theorem nests_of_answer? (h : ((pass.handle (d + 1) id).answer? c).isSome)
    (hnone : ((pass.handle d id).answer? c).isNone) : pass.Nests c id (d + 1) := by
  obtain ⟨⟨r, c'⟩, ha⟩ := Option.isSome_iff_exists.1 h
  refine ⟨⟨r, c', ha⟩, fun n hn => ?_⟩
  obtain ⟨r, c', hx⟩ := hn
  by_contra hlt
  have hd := pass.handle_mono (m := d) (by omega) hx
  rw [Gives, Option.isNone_iff_eq_none.1 hnone] at hd
  cases hd

/-- Under a limit a pass ends with as many levels as the limit admits, and one to be refused at,
    or not at all. -/
theorem gives_of_ends {r : Except Error Unit} (hlimit : c.settings.depthLimit = some n)
    (h : (pass.call id).Ends c r c') : (pass.handle (n - c.depth + 1) id).Gives c r c' := by
  obtain ⟨m, h⟩ := h
  rw [pass_call] at h
  have htwins : Twins (some n) (some n) c.depth c c :=
    ⟨hlimit, (limitedTo_eq_self hlimit).symm, rfl⟩
  obtain ⟨c₁, hx, hR⟩ := (echoes_enough htwins id).gives h
  rwa [hR.second, limitedTo_eq_self hR.first] at hx

end Pass

/-! ## Calls under a depth limit -/

/-- **A depth limit is exact.**  Let a pass of a definition end with a value when there is no
    limit, its passes nesting `d` deep.

    * Under a limit that admits `d` passes more than are under way, it ends with a value, too,
      and leaves the same context;
    * under a lower limit it ends in no other way than with the error that the limit is reached;
    * the font pass ends under every limit;
    * the number of passes under way is as before, under every limit, however the pass ends. -/
theorem ends_under_limit (hends : (pass.call id).Ends (c.limitedTo none) (.ok ()) c₁) :
    ∃ d, pass.Nests (c.limitedTo none) id d ∧
      (∀ n, c.depth + d ≤ n →
        (pass.call id).Ends (c.limitedTo (some n)) (.ok ()) (c₁.limitedTo (some n))) ∧
      (∀ n, n < c.depth + d → ∀ r c₂, (pass.call id).Ends (c.limitedTo (some n)) r c₂ →
        ∃ e, r = .error e ∧ e.cause.kind = .depthExceeded) ∧
      (pass = .fonts → ∀ n, ∃ r c₂, (pass.call id).Ends (c.limitedTo (some n)) r c₂) ∧
      ∀ limit r c₂, (pass.call id).Ends (c.limitedTo limit) r c₂ → c₂.depth = c.depth := by
  obtain ⟨d, hnests, hd⟩ := Pass.exists_nests hends
  refine ⟨d, hnests, fun n hle => ?_, fun n hlt r c₂ hx => ?_, ?_, fun limit r c₂ hx => ?_⟩
  · obtain ⟨c₁', hy, hR⟩ := (Pass.echoes_within (c.twins_self none (some n)) hle id).gives hd
    obtain rfl := hR.second
    exact ⟨d, by rw [Pass.pass_call]; exact hy⟩
  · obtain ⟨m, hx⟩ := hx
    rw [Pass.pass_call] at hx
    rcases Pass.echoes_limited (c.twins_self none (some n)) id m _ _ hd with
      ⟨c', hy, -⟩ | ⟨e, he, -⟩ | hexceeds
    · -- a value under the limit would make do with fewer levels without it
      cases hx.symm.trans hy
      rcases Pass.echoes_released (c.twins_self (some n) none) id _ _ hx with
        ⟨c₃, hz, -⟩ | ⟨e, he, -⟩ | hexempt
      · have hle : d ≤ n - c.depth := hnests.2 ⟨_, c₃, hz⟩
        have hpos := hnests.pos
        omega
      · cases he
      · exact hexempt.elim
    · cases he
    · exact hexceeds _ _ hx
  · rintro rfl n
    have hbounded : (c.limitedTo (some n)).Bounded n c.depth ((c.limitedTo none).Waits id) := by
      refine ⟨rfl, rfl, fun x hx => ?_⟩
      rw [effectiveTags?_limitedTo, ← effectiveTags?_limitedTo c none]
      exact grounded_of_handleFonts hd x hx
    obtain ⟨r, c₂, hx, -⟩ := answers_handleFonts (k := c.depth) .refl _ hbounded
    exact ⟨r, c₂, n - c.depth + 1, hx⟩
  · exact hx.keeps.depth

/-- A section of a stanza that inserts another one needs three levels. -/
theorem ends_under_limit_of_insertion :
    ∃ c c₁ c₂ : Context, ∃ e, (Call.commands ⟨0⟩).Ends (c.limitedTo none) (.ok ()) c₁ ∧
      (Call.commands ⟨0⟩).Ends (c.limitedTo (some 3)) (.ok ()) (c₁.limitedTo (some 3)) ∧
      (Call.commands ⟨0⟩).Ends (c.limitedTo (some 2)) (.error e) c₂ ∧
      e.cause.kind = .depthExceeded ∧ c₂.depth = 0 := by
  let c := [Edit.addDocument "d" "D", .addVersion ⟨0⟩ (.ofKnown .coptic) none,
    .addStanza ⟨0⟩ none "\\def\x7ba\x7d",
    .addStandaloneStanza none "a" "x"].foldl Edit.apply (.new {})
  have h : (Pass.commands.call ⟨0⟩).Ends (c.limitedTo none) (.ok ())
      ((Call.commands ⟨0⟩).run 3 (c.limitedTo none)) := Call.ends_run (by decide +kernel)
  have hthree : Pass.commands.Nests (c.limitedTo none) ⟨0⟩ 3 :=
    Pass.nests_of_answer? (by decide +kernel) (by decide +kernel)
  obtain ⟨d, hnests, hvalue, herror, -, hdepth⟩ := ends_under_limit h
  obtain rfl := hnests.unique hthree
  obtain ⟨e, hfail⟩ : ∃ e, (Call.commands ⟨0⟩).Ends (c.limitedTo (some 2)) (.error e) _ :=
    Call.ends_run_error (n := 4) (by decide +kernel)
  obtain ⟨e', he, hkind⟩ := herror 2 (by decide +kernel) _ _ hfail
  cases he
  exact ⟨c, _, _, e, h, hvalue 3 (by decide +kernel), hfail, hkind, hdepth _ _ _ hfail⟩

/-- **Under a limit that is too low a pass need not end.**  The first stanza of a section makes a
    truth value, and the second one reads it.  Under the limit the first one fails before it has
    made the value.  The section goes on all the same, and what the second stanza reads in place of
    the value inserts itself in a circle. -/
theorem endless_under_limit :
    ∃ c c₁ : Context, c.IsReachable ∧ c.depth = 0 ∧
      (Call.commands ⟨0⟩).Ends (c.limitedTo none) (.ok ()) c₁ ∧
      Pass.commands.Nests (c.limitedTo none) ⟨0⟩ 4 ∧
      ∀ r c₂, ¬ (Call.commands ⟨0⟩).Ends (c.limitedTo (some 3)) r c₂ := by
  let c₀ := [Edit.addDocument "d" "D", .addVersion ⟨0⟩ (.ofKnown .coptic) none,
    .addStanza ⟨0⟩ none "\\def\x7ba\x7d\\true",
    .addStanza ⟨0⟩ none "\\ternary\x7b\\def\x7bTrue\x7d|y|n\x7d",
    .addStandaloneStanza none "True" "\\def\x7bb\x7d", .addStandaloneStanza none "b" "x",
    .addStandaloneStanza none "a" "\\def\x7bb\x7d"].foldl Edit.apply (.new {})
  let c₁ := (Call.commands ⟨3⟩).run 2 c₀
  let c₂ := (Edit.setSourceText ⟨4⟩ "\\def\x7bTrue\x7d").apply c₁
  let c := (Call.commands ⟨4⟩).run 2 c₂
  have h₀ : c₀.IsReachable := (IsReachable.new {}).edits (by decide +kernel)
  have h₁ : c₁.IsReachable := .call h₀ (Call.ends_run (by decide +kernel))
  have h₂ : c₂.IsReachable := .edit h₁ ⟨trivial, by rintro _ ⟨⟩⟩
  have hc : c.IsReachable := .call h₂ (Call.ends_run (by decide +kernel))
  have hnone : ((Pass.commands.handle 4 ⟨0⟩).answer? (c.limitedTo (some 3))).isNone := by
    decide +kernel
  refine ⟨c, (Call.commands ⟨0⟩).run 4 (c.limitedTo none), hc, by decide +kernel,
    Call.ends_run (by decide +kernel),
    Pass.nests_of_answer? (by decide +kernel) (by decide +kernel), fun r c₃ hends => ?_⟩
  have hlevels : 3 - (c.limitedTo (some 3)).depth + 1 = 4 := by decide +kernel
  have hx : (Pass.commands.handle _ ⟨0⟩).Gives (c.limitedTo (some 3)) r c₃ :=
    Pass.gives_of_ends rfl hends
  rw [hlevels, Gives, Option.isNone_iff_eq_none.1 hnone] at hx
  cases hx

end Rubric
