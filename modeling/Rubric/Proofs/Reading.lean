/-
  Rubric — what a command pass reads.

  Commands read some parameters as they render: keys, conditions, tags and
  separators.  Which texts a pass comes to read so depends on how far it gets, on the
  values of conditions, and on what the keys lead to that its commands give.

  * `Inline.Consults`, `Engine.Consults`: the execution of inlines, or the command
    pass of a node, comes to where an inline is read as it renders;
  * `Context.Consults`: the definitions whose text shows in what a pass reads so;
  * `Context.Suits`: an unread inline that keeps to sets which can be told from unread
    texts;
  * **`isLegible_of_consults`**: what a pass reads is within such sets.
-/
import Rubric.Proofs.Conversion
import Rubric.Proofs.Foresight
import Rubric.Proofs.Trace

namespace Rubric

open Context Text

/-! ## What is read -/

/-- The execution of the inlines from `c` comes to where an inline is read as it renders, in the
    second context: a command in the inlines reads it, or inserts a definition of whose pass `Inner`
    says this. -/
def Inline.Consults (handle : DefinitionId → Engine Unit)
    (Inner : DefinitionId → Context → Inline → Context → Prop) (scope : Scope) (tags : Tags)
    (l : List Inline) (c : Context) (p : Inline) (c' : Context) : Prop :=
  ∃ names call kind ps c₁, Begins handle scope tags l c names call kind ps c₁ ∧
    (call.Reads handle kind ps c₁ p c' ∨
      ∃ y c₂, call.Inserts handle kind ps c₁ y c₂ ∧ Inner y c₂ p c')

namespace Engine

/-- The command pass of the node from `c` comes to where the inline is read as it renders, in the
    second context, where `Inner` says this of the passes of other nodes, which are nested at most
    `n` deep. -/
inductive ConsultsOver (n : Nat) (Inner : DefinitionId → Context → Inline → Context → Prop)
    (id : DefinitionId) (c : Context) (p : Inline) (c' : Context) : Prop
  /-- In the execution of its text. -/
  | text {d : Definition} {tags : Tags} {l : List Inline} :
      c.definition? id = some d → c.Reads id d tags l →
      Inline.Consults (handleCommands n) Inner { owner := id, document := d.document } tags l c p
        c' →
      ConsultsOver n Inner id c p c'
  /-- In a pass that comes behind its text. -/
  | part {y : DefinitionId} {c₁ : Context} :
      GoesOnTo (handleCommands n) id c y c₁ → Inner y c₁ p c' → ConsultsOver n Inner id c p c'

/-- The command pass of the node, nested at most `n` deep, comes to where the inline is read as it
    renders: one level deeper, if the depth limit is not reached. -/
def Consults : Nat → DefinitionId → Context → Inline → Context → Prop
  | 0, _, _, _, _ => False
  | n + 1, id, c, p, c' =>
    c.refusal? = none ∧ ConsultsOver n (Consults n) id (c.atDepth (c.depth + 1)) p c'

end Engine

/-- The text of `z` shows in what the command pass of `x` from `c` reads as it renders: in the key,
    condition, tag or separator that is given to a command, in a text which the pass handles. -/
def Context.Consults (c : Context) (x z : DefinitionId) : Prop :=
  ∃ n p c', Engine.Consults n x c p c' ∧ ∃ t ∈ Inline.shownTargets [p], c'.Renders t z

/-- What is read where the execution of inlines begins a command is read in that of others where it
    begins the same one. -/
theorem Inline.Consults.of_begins {handle : DefinitionId → Engine Unit}
    {Inner : DefinitionId → Context → Inline → Context → Prop} {scope : Scope} {tags tags' : Tags}
    {l l' : List Inline} {c c₀ c' : Context} {p : Inline}
    (hbegins : ∀ {names call kind ps c₁}, Begins handle scope tags l c names call kind ps c₁ →
      ∃ names', Begins handle scope tags' l' c₀ names' call kind ps c₁)
    (h : Inline.Consults handle Inner scope tags l c p c') :
    Inline.Consults handle Inner scope tags' l' c₀ p c' := by
  obtain ⟨names, call, kind, ps, c₁, hbegin, hread⟩ := h
  obtain ⟨names', hbegin'⟩ := hbegins hbegin
  exact ⟨names', call, kind, ps, c₁, hbegin', hread⟩

/-! ## What can be foreseen -/

variable {c₀ c c' : Context} {nodes legible : DefinitionId → Prop} {id y : DefinitionId}
  {scope : Scope} {tags : Tags} {call : Invocation} {kind : CommandKind} {ps l : List Inline}
  {p : Inline}

namespace Context

/-- Whatever shows in the text of the inline is legible. -/
def IsLegible (legible : DefinitionId → Prop) (c : Context) (p : Inline) : Prop :=
  ∀ t ∈ Inline.shownTargets [p], ∀ z, c.Renders t z → legible z

theorem IsLegible.of_core_eq (h : c.IsLegible legible p) (he : c'.core = c.core) :
    c'.IsLegible legible p := by
  refine fun t ht z hz => h t ht z (Relation.ReflTransGen.mono ?_ _ _ hz)
  rintro x y ⟨d', hd', hy⟩
  obtain ⟨references, hd⟩ := definition?_of_core_eq he.symm hd'
  exact ⟨_, hd, hy⟩

theorem Confined.isLegible (h : Confined c₀ nodes legible c)
    (hp : ∀ t ∈ Inline.shownTargets [p], legible t) : c.IsLegible legible p := by
  intro t ht z hz
  induction hz with
  | refl => exact hp t ht
  | tail _ hlast ih =>
    obtain ⟨d, hd, hy⟩ := hlast
    exact h.shown ih hd _ hy

/-- An unread inline whose commands run the passes of nodes and read what is legible. -/
structure Suits (c₀ : Context) (nodes legible : DefinitionId → Prop) (scope : Scope) (i : Inline) :
    Prop where
  fresh : i.IsFresh
  calls : ∀ key, i.Calls key → ∀ y, c₀.lookup? key scope.document = some y → nodes y
  reads : ∀ key, i.Reads key → ∀ y, c₀.lookup? key scope.document = some y → legible y

namespace Suits

variable {scope : Scope} {name : String} {kind : CommandKind} {ps ps' : List Inline} {own : Tags}

theorem span {l : List Inline} (h : c₀.Suits nodes legible scope (.span l own)) {i : Inline}
    (hi : i ∈ l) : c₀.Suits nodes legible scope i where
  fresh := (Inline.isFresh_span.1 h.fresh).2 i hi
  calls key hkey := h.calls key (Inline.has_span.2 ⟨i, hi, hkey⟩)
  reads key hkey := h.reads key (Inline.has_span.2 ⟨i, hi, hkey⟩)

variable (h : c₀.Suits nodes legible scope (.command name kind ps own .pending))
include h

theorem parameter {p : Inline} (hp : p ∈ ps) : c₀.Suits nodes legible scope p where
  fresh := (Inline.isFresh_command.1 h.fresh).2.2 p hp
  calls key hkey := h.calls key (Inline.has_command.2 (Or.inr ⟨p, hp, hkey⟩))
  reads key hkey := h.reads key (Inline.has_command.2 (Or.inr ⟨p, hp, hkey⟩))

/-- The passes that the command runs are those of nodes. -/
theorem handles {y : DefinitionId} (hc : Confined c₀ nodes legible c)
    (hps : List.Forall₂ (Inline.Yields c₀ legible scope.document) ps ps')
    (hy : c.Handles scope.document y kind ps') : nodes y := by
  cases kind
  case definition =>
    obtain ⟨p', s, rfl, hs, hl⟩ := hy
    obtain ⟨p, hp, hyields⟩ := exists_of_mem_forall₂ hps (List.mem_singleton_self p')
    have hname : p.MayName (trim s) := hyields.mayName (h.parameter hp).fresh hs
    refine hc.found (fun _ => And.left) (h.calls _ ?_) hl
    exact Inline.has_command.2 (Or.inl (Or.inl ⟨rfl, p, hp, hname⟩))
  case lines =>
    refine hc.found (fun _ => And.left) (h.calls _ ?_) hy
    exact Inline.has_command.2 (Or.inl (Or.inr ⟨rfl, rfl⟩))
  all_goals exact hy.elim

/-- What becomes of a parameter that the command reads shows what is legible. -/
theorem readable {p p' : Inline} (hp : p ∈ kind.plain ps)
    (hyields : Inline.Yields c₀ legible scope.document p p') :
    ∀ t ∈ Inline.shownTargets [p'], legible t :=
  hyields.shown fun key hkey => h.reads key (Inline.has_command.2 (Or.inl ⟨p, hp, hkey⟩))

end Suits

end Context

section
variable {handle : DefinitionId → Engine Unit}
  (hh : ∀ id, (handle id).Moves fun c c' =>
    Confined c₀ nodes legible c → Confined c₀ nodes legible c')
include hh

/-- What is executed for a command is executed where passes have kept to the sets. -/
theorem Invocation.Executes.confined {tags' : Tags}
    (h : call.Executes handle kind ps c tags' l c') (hfresh : ∀ p ∈ ps, p.IsFresh)
    (hc : Confined c₀ nodes legible c) : Confined c₀ nodes legible c' := by
  cases h with
  | parameters | condition | tag => exact hc
  | branch hcondition _ =>
    exact ((yields_rules hh call.scope).inline _ hcondition hc (hfresh _ (by simp))).1
  | body htag _ _ => exact ((yields_rules hh call.scope).inline _ htag hc (hfresh _ (by simp))).1

/-- **The commands that begin in suitable inlines are suitable**, and passes have kept to the sets
    where they begin. -/
theorem Inline.Begins.suits {names : List String}
    (h : Inline.Begins handle scope tags l c names call kind ps c')
    (hl : ∀ i ∈ l, c₀.Suits nodes legible scope i) (hc : Confined c₀ nodes legible c) :
    call.scope = scope ∧ Confined c₀ nodes legible c' ∧
      ∃ name own, c₀.Suits nodes legible scope (.command name kind ps own .pending) := by
  induction h with
  | here => exact ⟨rfl, hc, _, _, hl _ (List.mem_cons_self ..)⟩
  | later hi _ ih =>
    have hc₁ := ((yields_rules hh scope).inline _ hi hc (hl _ (by simp)).fresh).1
    exact ih (fun i hmem => hl i (by simp [hmem])) hc₁
  | span _ ih => exact ih (fun i hmem => (hl _ (List.mem_cons_self ..)).span hmem) hc
  | parameter hexecutes _ ih =>
    have hsuits := hl _ (List.mem_cons_self ..)
    have hc₁ := hexecutes.confined hh (Inline.isFresh_command.1 hsuits.fresh).2.2 hc
    exact ih (fun i hmem => hsuits.parameter (hexecutes.subset hmem)) hc₁

variable {name : String} {own : Tags}
  (hsuits : c₀.Suits nodes legible call.scope (.command name kind ps own .pending))
  (hc : Confined c₀ nodes legible c)
include hsuits hc

/-- What a suitable command reads is legible. -/
theorem Invocation.Reads.isLegible (h : call.Reads handle kind ps c p c') :
    c'.IsLegible legible p := by
  cases h with
  | parameter _ hps hp =>
    obtain ⟨hc₁, hyields⟩ := (yields_rules hh call.scope).inlines hps hc
      fun p hp => (hsuits.parameter hp).fresh
    obtain ⟨p', hp', hyields⟩ := exists_of_mem_forall₂ (kind.forall₂_plain hyields) hp
    exact hc₁.isLegible (hsuits.readable hp' hyields)
  | @condition condition _ _ _ _ _ _ hp =>
    obtain ⟨hc₁, hyields⟩ := (yields_rules hh call.scope).inline _ hp hc
      (hsuits.parameter (by simp)).fresh
    exact hc₁.isLegible (hsuits.readable (List.mem_singleton_self condition) hyields)
  | @tag tag _ _ _ _ _ hp =>
    obtain ⟨hc₁, hyields⟩ := (yields_rules hh call.scope).inline _ hp hc
      (hsuits.parameter (by simp)).fresh
    exact hc₁.isLegible (hsuits.readable (List.mem_singleton_self tag) hyields)

/-- What a suitable command inserts is a node. -/
theorem Invocation.Inserts.confined (h : call.Inserts handle kind ps c y c') :
    nodes y ∧ Confined c₀ nodes legible c' := by
  obtain ⟨ps', notes, c₁, hps, hl, rfl⟩ := h
  obtain ⟨hc₁, hyields⟩ := (yields_rules hh call.scope).inlines hps hc
    fun p hp => (hsuits.parameter hp).fresh
  exact ⟨hsuits.handles hc₁ hyields hl.handles, hc₁.of_core_eq (c₁.core_addReference _ _)⟩

end

/-- The passes that come behind the text of a node are those of nodes. -/
theorem Engine.GoesOnTo.confined {n : Nat} {c₁ : Context} (hconfines : c₀.Confines nodes legible)
    (h : GoesOnTo (handleCommands n) id c y c₁) (hid : nodes id)
    (hc : Confined c₀ nodes legible c) : nodes y ∧ Confined c₀ nodes legible c₁ := by
  have hh := confined_handleCommands hconfines n
  cases h with
  | target hd ht => exact ⟨hc.parts hid hd (Or.inr ht), hc⟩
  | found hd hk hnone hl => exact (hc.setTarget hconfines hd hk hnone hl).imp_left (· hid)
  | @child d before after _ r r' c₂ _ hd hchildren htitle hbefore =>
    have hmem : y ∈ d.kind.children := by simp [hchildren]
    refine ⟨hc.parts hid hd (Or.inl hmem), ?_⟩
    have hc₂ : Confined c₀ nodes legible c₂ := by
      rcases hcontents : d.kind.contents with _ | ⟨content, rest⟩
      · rw [hcontents] at htitle
        obtain ⟨-, rfl⟩ := gives_pure.1 htitle
        exact hc
      · have hcontent : content ∈ d.kind.contents := by simp [hcontents]
        rw [DefinitionKind.contents_eq_of_mem hcontent] at htitle
        exact confined_resolveContent hh hconfines hd hcontent (gives_runAll_singleton.1 htitle) hc
    have hcomposes := (permits_confined c₀ nodes legible).toComposes
    exact Moves.runAll hcomposes (List.forall_mem_map.2 fun x _ => hh x) _ _ _ hbefore hc₂

/-- **What a pass reads is legible**, if the sets hold whatever its texts may come to read. -/
theorem isLegible_of_consults (hconfines : c₀.Confines nodes legible) (n : Nat) (hid : nodes id)
    (hc : Confined c₀ nodes legible c) (h : Engine.Consults n id c p c') :
    c'.IsLegible legible p := by
  induction n generalizing id c with
  | zero => exact h.elim
  | succ n ih =>
    have hh := confined_handleCommands hconfines n
    replace hc := hc.of_core_eq (c.core_atDepth (c.depth + 1))
    cases h.2 with
    | @text d tags l hd hreads hl =>
      obtain ⟨content, hcontent, hunparsed, hparse, -⟩ := hreads
      obtain ⟨names, call, kind, ps, c₁, hbegins, hread⟩ := hl
      have hsuits : ∀ i ∈ l, c₀.Suits nodes legible { owner := id, document := d.document } i :=
        fun i hi => {
          fresh := Markup.isFresh_of_mem_parse hparse i hi
          calls := fun key hkey y hy => hconfines.handles hid
            (Or.inr (Or.inr (hc.mentions hd hcontent hunparsed hparse hi hkey hy)))
          reads := fun key hkey y hy => hconfines.reads hid
            (hc.mentions hd hcontent hunparsed hparse hi hkey hy) }
      obtain ⟨hscope, hc₁, name, own, hcommand⟩ := hbegins.suits hh hsuits hc
      rw [← hscope] at hcommand
      rcases hread with hread | ⟨y, c₂, hinserts, hinner⟩
      · exact hread.isLegible hh hcommand hc₁
      · obtain ⟨hy, hc₂⟩ := hinserts.confined hh hcommand hc₁
        exact ih hy hc₂ hinner
    | part hpart hinner =>
      obtain ⟨hy, hc₁⟩ := hpart.confined hconfines hid hc
      exact ih hy hc₁ hinner

end Rubric
