/-
  Rubric — what a command pass may come to.

  An unread text tells which keys its commands may look up: one that is written
  out, or any key where commands have to give it first.

  * `Inline.Shows`, `Inline.Calls`, `Inline.Reads`: the keys of definitions that may
    show in the text of an inline, whose passes may run, and that may show in what
    a command reads as it renders;
  * `Context.MayShow`, `MayHandle`, `MayRead`: the same for the texts of a definition;
  * `Context.Confines nodes legible`: sets that are closed under these;
    `Context.Confined`: what holds of a context as long as passes keep to them;
  * **`confined_handleCommands`**: the command pass does.
-/
import Rubric.Proofs.Digest
import Rubric.Proofs.Mirror
import Rubric.Proofs.Moves

namespace Rubric

open Context Text

/-! ## Keys -/

/-- The parameters whose text shows in the text of the command. -/
def CommandKind.shown : CommandKind → List Inline → List Inline
  | .lines, parameters => parameters
  | .footnote, parameters => parameters.dropLast
  | .ternary, _ :: branches => branches
  | .language, _ :: body => body
  | _, _ => []

namespace Inline

/-- The text of the parameter may name the key: without commands in it, it says which. -/
def MayName (p : Inline) (key : String) : Prop :=
  p.Uses (fun _ => False) → key = trim p.source

/-- The definition under the key may show in the text that the inline will have. -/
inductive Shows : Inline → String → Prop
  | span {l : List Inline} {own : Tags} {i : Inline} {key : String} :
      i ∈ l → Shows i key → Shows (span l own) key
  | definition {name : String} {parameters : List Inline} {own : Tags} {p : Inline}
      {key : String} :
      p ∈ parameters → p.MayName key → Shows (command name .definition parameters own .pending) key
  | parameter {name : String} {kind : CommandKind} {parameters : List Inline} {own : Tags}
      {p : Inline} {key : String} :
      p ∈ kind.shown parameters → Shows p key →
      Shows (command name kind parameters own .pending) key

/-- The inline has a pending command of which `P` holds. -/
def Has (P : CommandKind → List Inline → Prop) (i : Inline) : Prop :=
  ∃ name kind parameters own, command name kind parameters own .pending ∈ i.nested ∧
    P kind parameters

/-- A command of the inline may run the pass of the definition under the key. -/
def Calls (i : Inline) (key : String) : Prop :=
  i.Has fun kind parameters =>
    kind = .definition ∧ (∃ p ∈ parameters, p.MayName key) ∨
      kind = .lines ∧ key = Invocation.separatorKey

/-- The definition under the key may show in a parameter that a command of the inline reads as it
    renders. -/
def Reads (i : Inline) (key : String) : Prop :=
  i.Has fun kind parameters => ∃ p ∈ kind.plain parameters, p.Shows key

section
variable {P : CommandKind → List Inline → Prop}

theorem not_has_run (text : String) (own : Tags) : ¬ (run text own).Has P := by
  rintro ⟨name, kind, parameters, own', hmem, -⟩
  simp [nested] at hmem

theorem has_span {l : List Inline} {own : Tags} : (span l own).Has P ↔ ∃ i ∈ l, i.Has P := by
  simp only [Has, nested_span, List.mem_cons, mem_nestedList, reduceCtorEq, false_or]
  constructor
  · rintro ⟨name, kind, parameters, own', ⟨i, hi, hmem⟩, h⟩
    exact ⟨i, hi, name, kind, parameters, own', hmem, h⟩
  · rintro ⟨i, hi, name, kind, parameters, own', hmem, h⟩
    exact ⟨name, kind, parameters, own', ⟨i, hi, hmem⟩, h⟩

theorem has_command {name : String} {kind : CommandKind} {parameters : List Inline} {own : Tags} :
    (command name kind parameters own .pending).Has P ↔
      P kind parameters ∨ ∃ p ∈ parameters, p.Has P := by
  simp only [Has, nested_command, Evaluation.inlines, List.append_nil, List.mem_cons,
    mem_nestedList]
  constructor
  · rintro ⟨name', kind', parameters', own', hmem | ⟨p, hp, hmem⟩, h⟩
    · cases hmem
      exact Or.inl h
    · exact Or.inr ⟨p, hp, name', kind', parameters', own', hmem, h⟩
  · rintro (h | ⟨p, hp, name', kind', parameters', own', hmem, h⟩)
    · exact ⟨name, kind, parameters, own, Or.inl rfl, h⟩
    · exact ⟨name', kind', parameters', own', Or.inr ⟨p, hp, hmem⟩, h⟩

end

/-- The text of a fresh inline without commands is its markup. -/
theorem plain_of_literal {i : Inline} (hfresh : i.IsFresh) (h : i.Uses fun _ => False)
    (f : DefinitionId → Option (List Segment)) (tags : Tags) :
    ∃ s, segments f tags i = some s ∧ Segment.plain s = i.source := by
  induction i using induction generalizing tags with
  | run text own =>
    refine ⟨_, segments_run text own, ?_⟩
    simp [Segment.plain, source]
  | span l own ih =>
    replace hfresh := (isFresh_span.1 hfresh).2
    rw [segments_span, source]
    replace h := h.of_span
    induction l with
    | nil => exact ⟨[], by rw [segmentsList], rfl⟩
    | cons i l ihl =>
      obtain ⟨s, hs, hplain⟩ :=
        ih i (by simp) (hfresh i (by simp)) (h i (by simp)) (own.inherit tags)
      obtain ⟨s', hs', hplain'⟩ := ihl (fun j hj => ih j (by simp [hj]))
        (fun j hj => hfresh j (by simp [hj])) fun j hj => h j (by simp [hj])
      refine ⟨s ++ s', segmentsList_cons_eq_some.2 ⟨s, s', hs, hs', rfl⟩, ?_⟩
      rw [Segment.plain_append, hplain, hplain', sources, String.join_cons]
  | command name kind parameters own evaluation =>
    obtain ⟨-, rfl, -⟩ := isFresh_command.1 hfresh
    exact h.of_command.1.elim

end Inline

/-! ## Definitions -/

/-- Nothing is left to be resolved in what a definition holds; if the definition is a node, or
    legible, it leads to nodes, or shows what is legible. -/
structure DefinitionKind.KeepsTo (isNode : Prop) (nodes : DefinitionId → Prop) (isLegible : Prop)
    (legible : DefinitionId → Prop) (kind : DefinitionKind) : Prop where
  handled : ∀ content ∈ kind.contents, content.IsHandled
  aimed : kind.IsAimed
  value : ∀ value, kind ≠ .boolean value
  parts : isNode → ∀ y, y ∈ kind.children ∨ kind.target? = some y → nodes y
  shown : isLegible → ∀ y ∈ kind.shownLinks, legible y

namespace Context

variable {c₀ c c' c₁ : Context} {nodes legible : DefinitionId → Prop} {id x y : DefinitionId}

/-- The definition is under a key of which `names` holds for an unread text of `x`. -/
def Mentions (names : Inline → String → Prop) (c : Context) (x y : DefinitionId) : Prop :=
  ∃ d content l i key, c.definition? x = some d ∧ content ∈ d.kind.contents ∧
    content.stage = .unparsed ∧ Markup.parse c.commands content.source = .ok l ∧ i ∈ l ∧
    names i key ∧ c.lookup? key d.document = some y

/-- The definition is the target that a part reference does not have yet. -/
def Refers (c : Context) (x y : DefinitionId) : Prop :=
  ∃ d reference, c.definition? x = some d ∧ d.kind = .partReference reference ∧
    reference.target = none ∧ c.lookup? reference.targetKey d.document = some y

/-- The text of `y` may show in the text that `x` has once its commands are handled. -/
def MayShow (c : Context) (x y : DefinitionId) : Prop :=
  (∃ d, c.definition? x = some d ∧ y ∈ d.kind.shownLinks) ∨ c.Refers x y ∨
    c.Mentions Inline.Shows x y

/-- The command pass of `x` may run that of `y`. -/
def MayHandle (c : Context) (x y : DefinitionId) : Prop :=
  (∃ d, c.definition? x = some d ∧ (y ∈ d.kind.children ∨ d.kind.target? = some y)) ∨
    c.Refers x y ∨ c.Mentions Inline.Calls x y

/-- The text of `y` may show in what a command in the text of `x` reads as it renders. -/
def MayRead (c : Context) (x y : DefinitionId) : Prop :=
  c.Mentions Inline.Reads x y

/-! ### What shows nothing -/

section
variable (hnone : c.definition? x = none)
include hnone

theorem not_mentions {names : Inline → String → Prop} : ¬ c.Mentions names x id := by
  rintro ⟨d, _, _, _, _, hd, -⟩
  cases hnone.symm.trans hd

theorem not_refers : ¬ c.Refers x id := by
  rintro ⟨d, _, hd, -⟩
  cases hnone.symm.trans hd

theorem not_mayShow : ¬ c.MayShow x id := by
  rintro (⟨d, hd, -⟩ | hrefers | hmentions)
  · cases hnone.symm.trans hd
  · exact not_refers hnone hrefers
  · exact not_mentions hnone hmentions

theorem not_mayHandle : ¬ c.MayHandle x id := by
  rintro (⟨d, hd, -⟩ | hrefers | hmentions)
  · cases hnone.symm.trans hd
  · exact not_refers hnone hrefers
  · exact not_mentions hnone hmentions

end

/-- A value shows nothing else. -/
theorem not_mayShow_of_value {d : Definition} (hd : c.definition? x = some d)
    (hcontents : d.kind.contents = []) (hlinks : d.kind.shownLinks = []) (haimed : d.kind.IsAimed) :
    ¬ c.MayShow x id := by
  rintro (⟨d', hd', hmem⟩ | ⟨d', reference, hd', hreference, hnone, -⟩ |
    ⟨d', _, _, _, _, hd', hcontent, -⟩) <;> cases hd.symm.trans hd'
  · rw [hlinks] at hmem; cases hmem
  · have hsome := haimed reference hreference
    rw [hnone] at hsome
    cases hsome
  · rw [hcontents] at hcontent; cases hcontent

/-! ### Closed sets -/

/-- A set of nodes that holds whatever their passes may run, and a set of definitions that holds
    what the passes may read as it renders, and whatever may show in that. -/
structure Confines (c : Context) (nodes legible : DefinitionId → Prop) : Prop where
  handles : ∀ {x y}, nodes x → c.MayHandle x y → nodes y
  shows : ∀ {x y}, legible x → c.MayShow x y → legible y
  reads : ∀ {x y}, nodes x → c.MayRead x y → legible y
  booleans : ∀ {x d value}, c.definition? x = some d → d.kind = .boolean value → legible x
  new : ∀ {y}, c.definitions.size ≤ y.index → nodes y ∧ legible y

/-- The context comes from `c₀` by passes that have kept to the sets. -/
structure Confined (c₀ : Context) (nodes legible : DefinitionId → Prop) (c : Context) : Prop where
  commands : c.commands = c₀.commands
  lookup? : ∀ {key document y}, c.lookup? key document = some y →
    c₀.lookup? key document = some y ∨ nodes y ∧ legible y
  new : ∀ {y}, c.definitions.size ≤ y.index → nodes y ∧ legible y
  booleans : ∀ {x d value}, c.definition? x = some d → d.kind = .boolean value → legible x
  /-- Nothing is left to be resolved in a definition, or it is as it was. -/
  origin : ∀ {x d}, c.definition? x = some d →
    ((∀ content ∈ d.kind.contents, content.IsHandled) ∧ d.kind.IsAimed) ∨
      ∃ d₀, c₀.definition? x = some d₀ ∧ d₀.document = d.document ∧ d₀.kind = d.kind
  parts : ∀ {x d y}, nodes x → c.definition? x = some d →
    y ∈ d.kind.children ∨ d.kind.target? = some y → nodes y
  shown : ∀ {x d}, legible x → c.definition? x = some d → ∀ y ∈ d.kind.shownLinks, legible y

theorem Confines.confined (h : c.Confines nodes legible) : Confined c nodes legible c where
  commands := rfl
  lookup? := Or.inl
  new := h.new
  booleans := h.booleans
  origin hd := Or.inr ⟨_, hd, rfl, rfl⟩
  parts hx hd hy := h.handles hx (Or.inl ⟨_, hd, hy⟩)
  shown hx hd _ hy := h.shows hx (Or.inl ⟨_, hd, hy⟩)

namespace Confined

/-! ### What is still unread -/

section
variable (h : Confined c₀ nodes legible c)
include h

/-- A text that is unread was so before, with the same key in it. -/
theorem mentions {d : Definition} {content : Content} {l : List Inline} {i : Inline}
    {names : Inline → String → Prop} {key : String} (hd : c.definition? x = some d)
    (hcontent : content ∈ d.kind.contents) (hunparsed : content.stage = .unparsed)
    (hl : Markup.parse c.commands content.source = .ok l) (hi : i ∈ l) (hkey : names i key)
    (hy : c₀.lookup? key d.document = some y) : c₀.Mentions names x y := by
  rcases h.origin hd with ⟨hhandled, -⟩ | ⟨d₀, hd₀, hdocument, hkind⟩
  · exact absurd hunparsed (hhandled content hcontent)
  · exact ⟨d₀, content, l, i, key, hd₀, hkind ▸ hcontent, hunparsed, h.commands ▸ hl, hi, hkey,
      hdocument ▸ hy⟩

/-- A part reference that has no target had none before. -/
theorem refers {d : Definition} {reference : PartReference} (hd : c.definition? x = some d)
    (hk : d.kind = .partReference reference) (hnone : reference.target = none)
    (hy : c₀.lookup? reference.targetKey d.document = some y) : c₀.Refers x y := by
  rcases h.origin hd with ⟨-, haimed⟩ | ⟨d₀, hd₀, hdocument, hkind⟩
  · have hsome := haimed reference hk
    rw [hnone] at hsome
    cases hsome
  · exact ⟨d₀, reference, hd₀, hkind.trans hk, hnone, hdocument ▸ hy⟩

/-! ### What passes do -/

theorem of_core_eq (he : c'.core = c.core) : Confined c₀ nodes legible c' := by
  have hdefinition : ∀ {x d'}, c'.definition? x = some d' →
      ∃ d, c.definition? x = some d ∧ d.document = d'.document ∧ d.kind = d'.kind := by
    intro x d' hd'
    obtain ⟨references, hd⟩ := definition?_of_core_eq he.symm hd'
    exact ⟨_, hd, rfl, rfl⟩
  have hsize : c'.definitions.size = c.definitions.size := by
    have hmap := congrArg (fun c => c.definitions.size) he
    simpa only [core, Array.size_map] using hmap
  have hcommands : c'.commands = c.commands := show c'.core.commands = c.core.commands by rw [he]
  exact {
    commands := hcommands.trans h.commands
    lookup? := by
      intro key document y hy
      rw [lookup?_of_core_eq he] at hy
      exact h.lookup? hy
    new := by
      intro y hy
      rw [hsize] at hy
      exact h.new hy
    booleans := by
      intro x d' value hd' hk
      obtain ⟨d, hd, -, hkind⟩ := hdefinition hd'
      exact h.booleans hd (hkind.trans hk)
    origin := by
      intro x d' hd'
      obtain ⟨d, hd, hdocument, hkind⟩ := hdefinition hd'
      rw [← hdocument, ← hkind]
      exact h.origin hd
    parts := by
      intro x d' y hx hd' hy
      obtain ⟨d, hd, -, hkind⟩ := hdefinition hd'
      exact h.parts hx hd (hkind ▸ hy)
    shown := by
      intro x d' hx hd'
      obtain ⟨d, hd, -, hkind⟩ := hdefinition hd'
      exact hkind ▸ h.shown hx hd }

/-- A truth value is made: its number is new, and it leads nowhere. -/
theorem addBoolean (key : String) (value : Bool) :
    Confined c₀ nodes legible (c.addBoolean none key value).2 := by
  have hnew := h.new (y := ⟨c.definitions.size⟩) le_rfl
  have hdefinition : ∀ {x d'}, (c.addBoolean none key value).2.definition? x = some d' →
      x = ⟨c.definitions.size⟩ ∧ d'.kind = .boolean value ∨ c.definition? x = some d' := by
    intro x d' hd'
    rcases of_definition?_addDefinition hd' with hd' | ⟨hx, rfl⟩
    · exact Or.inr hd'
    · exact Or.inl ⟨by rw [← hx], rfl⟩
  constructor
  case commands =>
    obtain ⟨warnings, hmade⟩ := c.exists_addBoolean key value
    rw [hmade]
    exact h.commands
  case lookup? =>
    intro other document y hy
    rw [lookup?_addBoolean] at hy
    by_cases hkey : key = other
    · rw [if_pos hkey, Option.or_eq_some_iff] at hy
      rcases hy with hy | ⟨-, hy⟩
      · exact h.lookup? (by rw [Context.lookup?, hy]; rfl)
      · cases hy
        exact Or.inr hnew
    · rw [if_neg hkey] at hy
      exact h.lookup? hy
  case new =>
    intro y hy
    rw [Context.addBoolean, definitions_addDefinition, Array.size_push] at hy
    exact h.new (by omega)
  case booleans =>
    intro x d' other hd' hk
    rcases hdefinition hd' with ⟨rfl, -⟩ | hd
    · exact hnew.2
    · exact h.booleans hd hk
  case origin =>
    intro x d' hd'
    rcases hdefinition hd' with ⟨rfl, hk⟩ | hd
    · refine Or.inl ⟨?_, ?_⟩
      · rw [hk]; rintro _ ⟨⟩
      · rw [hk]; rintro _ ⟨⟩
    · exact h.origin hd
  case parts =>
    intro x d' y hx hd' hy
    rcases hdefinition hd' with ⟨rfl, hk⟩ | hd
    · rw [hk] at hy
      rcases hy with hy | hy <;> cases hy
    · exact h.parts hx hd hy
  case shown =>
    intro x d' hx hd'
    rcases hdefinition hd' with ⟨rfl, hk⟩ | hd
    · rw [hk]
      rintro _ ⟨⟩
    · exact h.shown hx hd

/-- One definition is changed in what it holds: it stays, or what it holds keeps to the sets. -/
theorem modifyKind {f : DefinitionKind → DefinitionKind}
    (hf : ∀ {d}, c.definition? id = some d →
      f d.kind = d.kind ∨ (f d.kind).KeepsTo (nodes id) nodes (legible id) legible) :
    Confined c₀ nodes legible (c.modifyDefinition id fun d => { d with kind := f d.kind }) := by
  have hdefinition : ∀ {x d'},
      (c.modifyDefinition id fun d => { d with kind := f d.kind }).definition? x = some d' →
        ∃ d, c.definition? x = some d ∧ d.document = d'.document ∧ (d.kind = d'.kind ∨
          d'.kind.KeepsTo (nodes x) nodes (legible x) legible) := by
    intro x d' hd'
    obtain ⟨d, hd, rfl⟩ := definition?_modifyKind hd'
    refine ⟨d, hd, rfl, ?_⟩
    by_cases he : id = x
    · subst he
      simpa only [if_true, eq_comm (a := d.kind)] using hf hd
    · exact Or.inl (by simp [he])
  exact {
    commands := h.commands
    lookup? := h.lookup?
    new := by
      intro y hy
      rw [modifyDefinition, Array.size_modify] at hy
      exact h.new hy
    booleans := by
      intro x d' value hd' hk
      obtain ⟨d, hd, -, hkind | hkeeps⟩ := hdefinition hd'
      · exact h.booleans hd (hkind.trans hk)
      · exact absurd hk (hkeeps.value value)
    origin := by
      intro x d' hd'
      obtain ⟨d, hd, hdocument, hkind | hkeeps⟩ := hdefinition hd'
      · rw [← hdocument, ← hkind]
        exact h.origin hd
      · exact Or.inl ⟨hkeeps.handled, hkeeps.aimed⟩
    parts := by
      intro x d' y hx hd' hy
      obtain ⟨d, hd, -, hkind | hkeeps⟩ := hdefinition hd'
      · exact h.parts hx hd (hkind ▸ hy)
      · exact hkeeps.parts hx y hy
    shown := by
      intro x d' hx hd'
      obtain ⟨d, hd, -, hkind | hkeeps⟩ := hdefinition hd'
      · exact hkind ▸ h.shown hx hd
      · exact hkeeps.shown hx }

/-- A text is handled: what it shows must be legible if the definition is. -/
theorem resolveCommands {l : List Inline}
    (hl : legible id → ∀ t ∈ Inline.shownTargets l, legible t) :
    Confined c₀ nodes legible (c.modifyContent id fun content => content.resolveCommands l) := by
  rw [modifyContent_eq]
  refine h.modifyKind fun {d} hd => ?_
  by_cases hreference : ∃ reference, d.kind = .partReference reference
  · obtain ⟨reference, hk⟩ := hreference
    exact Or.inl (by rw [hk]; rfl)
  by_cases hvalue : ∃ value, d.kind = .boolean value
  · obtain ⟨value, hk⟩ := hvalue
    exact Or.inl (by rw [hk]; rfl)
  push Not at hreference hvalue
  refine Or.inr ⟨?_, ?_, ?_, ?_, ?_⟩
  · intro content' hcontent
    obtain ⟨content, -, rfl⟩ := DefinitionKind.mem_contents_mapContents.1 hcontent
    exact content.isHandled_resolveCommands l
  · exact DefinitionKind.isAimed_mapContents.2
      (DefinitionKind.isAimed_of_not_reference hreference).1
  · intro value hk
    cases hkind : d.kind <;> simp_all [DefinitionKind.mapContents]
  · intro hid y hy
    rw [DefinitionKind.children_mapContents, DefinitionKind.target?_mapContents] at hy
    exact h.parts hid hd hy
  · intro hid y hy
    rcases DefinitionKind.mem_shownLinks.1 hy with ht | hy
    · exact hl hid y (DefinitionKind.mem_shownTargets_resolveCommands ht)
    · rw [DefinitionKind.children_mapContents, DefinitionKind.target?_mapContents] at hy
      exact h.shown hid hd y (DefinitionKind.mem_shownLinks.2 (Or.inr hy))

/-- What is found under a key that `c₀` leads to members of a set is a member of the set, or is
    new. -/
theorem found {P : DefinitionId → Prop} (hP : ∀ y, nodes y ∧ legible y → P y) {key : String}
    {document : Option DocumentId} (hkey : ∀ y, c₀.lookup? key document = some y → P y)
    (hy : c.lookup? key document = some y) : P y := by
  rcases h.lookup? hy with hy | hnew
  · exact hkey y hy
  · exact hP y hnew

/-- A part reference gets its target. -/
theorem setTarget (hconfines : c₀.Confines nodes legible) {d : Definition}
    {reference : PartReference} {target : DefinitionId} (hd : c.definition? id = some d)
    (hk : d.kind = .partReference reference) (hnone : reference.target = none)
    (ht : c.lookup? reference.targetKey d.document = some target) :
    (nodes id → nodes target) ∧
      Confined c₀ nodes legible ((c.addReference target id).setTarget id target) := by
  have hnode : nodes id → nodes target := fun hid =>
    h.found (fun _ => And.left) (fun y hy =>
      hconfines.handles hid (Or.inr (Or.inl (h.refers hd hk hnone hy)))) ht
  have hlegible : legible id → legible target := fun hid =>
    h.found (fun _ => And.right) (fun y hy =>
      hconfines.shows hid (Or.inr (Or.inl (h.refers hd hk hnone hy)))) ht
  refine ⟨hnode, ?_⟩
  rw [setTarget_eq]
  refine (h.of_core_eq (c.core_addReference target id)).modifyKind fun {d'} hd' => Or.inr ?_
  obtain ⟨references, hd''⟩ := definition?_addReference hd target id
  cases hd'.symm.trans hd''
  rw [show ({ d with references } : Definition).kind = _ from hk]
  refine ⟨by rintro _ ⟨⟩, ?_, by rintro _ ⟨⟩, ?_, ?_⟩
  · rintro _ ⟨⟩
    rfl
  · rintro hid y (hy | hy) <;> cases hy
    exact hnode hid
  · intro hid y hy
    rcases DefinitionKind.mem_shownLinks.1 hy with hy | hy | hy <;> cases hy
    exact hlegible hid

end

end Confined

/-- What any command does to a context keeps to the sets. -/
theorem permits_confined (c₀ : Context) (nodes legible : DefinitionId → Prop) :
    Permits (fun _ => True) fun c c' =>
      Confined c₀ nodes legible c → Confined c₀ nodes legible c' where
  refl _ h := h
  trans h h' hc := h' (h hc)
  warn c warnings h := h.of_core_eq (c.core_warnAll warnings)
  reference c definition user h := h.of_core_eq (c.core_addReference definition user)
  number _ c document h := h.of_core_eq (c.core_modifyFootnotes document _)
  boolean _ _ value h := h.addBoolean _ value

end Context

/-! ## Execution -/

variable {c₀ c c' c₁ : Context} {nodes legible : DefinitionId → Prop} {id : DefinitionId}
  {document : Option DocumentId}

theorem exists_of_mem_forall₂ {α β : Type} {R : α → β → Prop} {l : List α} {l' : List β}
    (h : List.Forall₂ R l l') {b : β} (hb : b ∈ l') : ∃ a ∈ l, R a b := by
  induction h with
  | nil => cases hb
  | cons hab _ ih =>
    rcases List.mem_cons.1 hb with rfl | hb
    · exact ⟨_, List.mem_cons_self .., hab⟩
    · obtain ⟨a, ha, hab⟩ := ih hb
      exact ⟨a, List.mem_cons_of_mem _ ha, hab⟩

theorem eq_of_forall₂ {α : Type} {R : α → α → Prop} {l l' : List α} (h : List.Forall₂ R l l')
    (hR : ∀ a ∈ l, ∀ b, R a b → b = a) : l' = l := by
  induction h with
  | nil => rfl
  | cons hab _ ih => rw [hR _ (by simp) _ hab, ih fun a ha => hR a (by simp [ha])]

/-- The parameters that are read stand in the same places before and after execution. -/
theorem CommandKind.forall₂_plain {R : Inline → Inline → Prop} {ps ps' : List Inline}
    (h : List.Forall₂ R ps ps') (kind : CommandKind) :
    List.Forall₂ R (kind.plain ps) (kind.plain ps') := by
  cases kind with
  | definition | abbreviation => exact h
  | ternary | language | lines =>
    cases h with
    | nil => exact .nil
    | cons hp _ => exact .cons hp .nil
  | transliterate =>
    rcases h with _ | ⟨ha, _ | ⟨_, _ | ⟨hb, _ | _⟩⟩⟩
    case cons.cons.nil => exact .cons ha .nil
    case cons.cons.cons.nil => exact .cons ha (.cons hb .nil)
    all_goals exact .nil
  | boolean | footnote | ipaTranscribe => exact .nil

/-- What an unread inline becomes shows legible definitions, if those under the keys that it may
    show are; without commands it stays as it is. -/
structure Inline.Yields (c₀ : Context) (legible : DefinitionId → Prop)
    (document : Option DocumentId) (i i' : Inline) : Prop where
  shown : (∀ key, i.Shows key → ∀ y, c₀.lookup? key document = some y → legible y) →
    ∀ t ∈ shownTargets [i'], legible t
  literal : i.Uses (fun _ => False) → i' = i

/-- The text of an executed parameter is one that it may name. -/
theorem Inline.Yields.mayName {p p' : Inline} (h : Yields c₀ legible document p p')
    (hfresh : p.IsFresh) {s : String} (hs : c.inlineText? p' = some s) : p.MayName (trim s) := by
  intro hliteral
  rw [h.literal hliteral] at hs
  obtain ⟨segments, hsegments, hplain⟩ := plain_of_literal hfresh hliteral c.segments? .unset
  rw [inlineText?, inlineSegments?, hsegments, Option.map_some, hplain] at hs
  rw [Option.some.inj hs]

section
variable {handle : DefinitionId → Engine Unit}

/-- The separator where a command gives none shows nothing else. -/
theorem Invocation.Separates.shownTargets {call : Invocation} {separator : Inline}
    (h : Separates handle call c separator c') : Inline.shownTargets [separator] = [] := by
  obtain ⟨text, own, rfl⟩ := h.eq_run
  rfl

/-- What a command with executed parameters shows. -/
theorem shown_of_effects {call : Invocation} {name : String} {kind : CommandKind} {own : Tags}
    {ps ps' : List Inline} {effect : Effect} (hc : Confined c₀ nodes legible c)
    (hfresh : ∀ p ∈ ps, p.IsFresh)
    (hps : List.Forall₂ (Inline.Yields c₀ legible call.scope.document) ps ps')
    (h : Invocation.Effects handle call c kind ps' effect c')
    (hkeys : ∀ key, (Inline.command name kind ps own .pending).Shows key →
      ∀ y, c₀.lookup? key call.scope.document = some y → legible y) :
    ∀ t ∈ Inline.shownTargets
      [.command name kind ps' own (.of effect.output effect.footnote)], legible t := by
  have hshown : ∀ {p'}, (∃ p ∈ kind.shown ps,
      Inline.Yields c₀ legible call.scope.document p p') →
      ∀ t ∈ Inline.shownTargets [p'], legible t := by
    rintro p' ⟨p, hp, hyields⟩
    exact hyields.shown fun key hkey => hkeys key (.parameter hp hkey)
  have hdefinition : ∀ {target}, legible target → ∀ t ∈ Inline.shownTargets
      [.command name kind ps' own (.evaluated (.definition target))], legible t := by
    intro target htarget t ht
    rw [Inline.shownTargets_definition] at ht
    exact List.mem_singleton.1 ht ▸ htarget
  have hinline : ∀ {i}, (∀ t ∈ Inline.shownTargets [i], legible t) →
      ∀ t ∈ Inline.shownTargets [.command name kind ps' own (.evaluated (.inline i))],
        legible t := by
    intro i hi
    rw [Inline.shownTargets_inline]
    exact hi
  have hlines : ∀ {separator : Inline} {lines : List Inline},
      (∀ t ∈ Inline.shownTargets [separator], legible t) →
      (∀ p' ∈ lines, ∀ t ∈ Inline.shownTargets [p'], legible t) →
      ∀ t ∈ Inline.shownTargets [.span (lines.intersperse separator) .unset], legible t := by
    intro separator lines hseparator hl t ht
    rw [Inline.shownTargets_span] at ht
    obtain ⟨i, hi, ht⟩ := Inline.mem_shownTargets_iff.1 ht
    rcases mem_of_mem_intersperse hi with he | hi
    · exact hseparator t (he ▸ ht)
    · exact hl i hi t ht
  cases h with
  | definition hkey hl _ _ _ =>
    obtain ⟨p, hp, hyields⟩ := exists_of_mem_forall₂ hps (List.mem_singleton_self _)
    exact hdefinition (hc.found (fun _ => And.right)
      (hkeys _ (.definition hp (hyields.mayName (hfresh p hp) hkey))) hl)
  | value => exact hinline (by rintro _ ⟨⟩)
  | sharedBoolean _ hd hk => exact hdefinition (hc.booleans hd hk)
  | newBoolean => exact hdefinition (hc.new le_rfl).2
  | lines =>
    refine hinline ?_
    exact hlines (hshown (exists_of_mem_forall₂ hps (by simp))) fun p' hp' =>
      hshown (exists_of_mem_forall₂ hps (by simp [hp']))
  | defaultLines _ _ hseparator =>
    refine hinline (hlines (by rw [hseparator.shownTargets]; rintro _ ⟨⟩) fun p' hp' => ?_)
    exact hshown (exists_of_mem_forall₂ hps (by simp [hp']))
  | @footnote annotated body =>
    have hinit : List.Forall₂ (Inline.Yields c₀ legible call.scope.document) ps.dropLast
        annotated := by
      have htake := List.forall₂_take (ps.length - 1) hps
      rwa [← List.dropLast_eq_take, hps.length_eq, ← List.dropLast_eq_take,
        List.dropLast_concat] at htake
    intro t ht
    simp only [Inline.shownTargets_command, Evaluation.of, Inline.target?, Evaluation.output?,
      Option.toList_none, List.nil_append, Evaluation.shownOf, Inline.shownTargets_span] at ht
    obtain ⟨i, hi, ht⟩ := Inline.mem_shownTargets_iff.1 ht
    rcases List.mem_append.1 hi with hi | hi
    · exact hshown (exists_of_mem_forall₂ hinit hi) t ht
    · rw [List.mem_singleton.1 hi] at ht
      cases ht
  | text => exact hinline (by rintro _ ⟨⟩)

variable (hh : ∀ id, (handle id).Moves fun c c' =>
  Confined c₀ nodes legible c → Confined c₀ nodes legible c')
include hh

/-- **Execution keeps to the sets**, and what comes of it shows what is legible. -/
theorem yields_rules (scope : Scope) : Inline.ExecutionRules handle scope
    (fun _ i c i' _ c' => Confined c₀ nodes legible c → i.IsFresh →
      Confined c₀ nodes legible c' ∧ Inline.Yields c₀ legible scope.document i i')
    (fun _ l c l' _ c' => Confined c₀ nodes legible c → (∀ i ∈ l, i.IsFresh) →
      Confined c₀ nodes legible c' ∧
        List.Forall₂ (Inline.Yields c₀ legible scope.document) l l') := by
  refine ⟨?run, ?span, ?executed, ?ternary, ?language, ?command, ?nil, ?cons⟩
  case run =>
    intro tags text own c hc _
    exact ⟨hc, fun _ t ht => (by cases ht), fun _ => rfl⟩
  case span =>
    intro tags l own c l' notes c' ih hc hfresh
    obtain ⟨hc', hl⟩ := ih hc (Inline.isFresh_span.1 hfresh).2
    refine ⟨hc', fun hkeys t ht => ?_, fun hliteral => ?_⟩
    · rw [Inline.shownTargets_span] at ht
      obtain ⟨i', hi', ht⟩ := Inline.mem_shownTargets_iff.1 ht
      obtain ⟨i, hi, hyields⟩ := exists_of_mem_forall₂ hl hi'
      exact hyields.shown (fun key hkey => hkeys key (.span hi hkey)) t ht
    · rw [eq_of_forall₂ hl fun i hi i' hyields => hyields.literal (hliteral.of_span i hi)]
  case executed =>
    intro tags name kind parameters own evaluation c he _ hfresh
    exact absurd (Inline.isFresh_command.1 hfresh).2.1 he
  case ternary =>
    intro tags name condition yes no own c condition' _ c₁ value chosen _ c' ihc _ ihb hc hfresh
    obtain ⟨-, -, hfresh⟩ := Inline.isFresh_command.1 hfresh
    obtain ⟨hc₁, -⟩ := ihc hc (hfresh _ (by simp))
    obtain ⟨hc', hchosen⟩ := ihb hc₁ (by cases value <;> exact hfresh _ (by simp))
    refine ⟨hc', fun hkeys => ?_, fun hliteral => hliteral.of_command.1.elim⟩
    have hshown := hchosen.shown fun key hkey =>
      hkeys key (.parameter (by cases value <;> simp [CommandKind.shown]) hkey)
    rw [Inline.shownTargets_parameter (i := chosen) (by cases value <;> rfl)]
    exact hshown
  case language =>
    intro tags name tag body own c tag' notes c₁ language body' more c' iht ihb hc hfresh
    obtain ⟨-, -, hfresh⟩ := Inline.isFresh_command.1 hfresh
    obtain ⟨hc₁, -⟩ := iht hc (hfresh _ (by simp))
    obtain ⟨hc', hbody⟩ := ihb hc₁ (hfresh _ (by simp))
    refine ⟨hc', fun hkeys => ?_, fun hliteral => hliteral.of_command.1.elim⟩
    have hshown := hbody.shown fun key hkey =>
      hkeys key (.parameter (by simp [CommandKind.shown]) hkey)
    rw [Inline.shownTargets_inline, Inline.shownTargets_span]
    exact hshown
  case command =>
    intro tags name kind ps own c ps' notes c₁ effect c' _ ihp hrun hc hfresh
    obtain ⟨-, -, hfresh⟩ := Inline.isFresh_command.1 hfresh
    obtain ⟨hc₁, hps⟩ := ihp hc hfresh
    have hc' := Invocation.run_moves (permits_confined c₀ nodes legible) hh _ trivial ps' _ _ _ hrun
      hc₁
    exact ⟨hc', fun hkeys => shown_of_effects hc₁ hfresh hps (Invocation.effects_of_run hrun) hkeys,
      fun hliteral => hliteral.of_command.1.elim⟩
  case nil =>
    intro tags c hc _
    exact ⟨hc, .nil⟩
  case cons =>
    intro tags i l c i' notes c₁ l' more c' ihi ihl hc hfresh
    obtain ⟨hc₁, hi⟩ := ihi hc (hfresh _ (by simp))
    obtain ⟨hc', hl⟩ := ihl hc₁ fun j hj => hfresh j (by simp [hj])
    exact ⟨hc', .cons hi hl⟩

/-! ## The command pass -/

/-- What a source becomes shows what is legible, if whatever may show in the definition is. -/
theorem shown_of_resolveSource {d : Definition} {content : Content} {l : List Inline}
    (hc : Confined c₀ nodes legible c) (hd : c.definition? id = some d)
    (hcontent : content ∈ d.kind.contents) (hunparsed : content.stage = .unparsed)
    (hshows : ∀ y, c₀.MayShow id y → legible y)
    (h : (Engine.resolveSource handle id content.source).Gives c (.ok l) c₁) :
    ∀ t ∈ Inline.shownTargets l, legible t := by
  intro t ht
  rcases Engine.gives_resolveSource h with ⟨_, -, hr, -⟩ |
    ⟨written, tags, d', hwritten, -, hd', ⟨_, hr, -⟩ | ⟨l, notes, c₂, hr, hl, -⟩⟩ <;> cases hr
  cases hd.symm.trans hd'
  obtain ⟨-, hyields⟩ := (yields_rules hh _).inlines hl hc (Markup.isFresh_of_mem_parse hwritten)
  obtain ⟨i', hi', ht⟩ := Inline.mem_shownTargets_iff.1 ht
  obtain ⟨i, hi, hyields⟩ := exists_of_mem_forall₂ hyields hi'
  refine hyields.shown (fun key hkey y hy => hshows y ?_) t ht
  exact Or.inr (Or.inr (hc.mentions hd hcontent hunparsed hwritten hi hkey hy))

variable (hconfines : c₀.Confines nodes legible)
include hconfines

/-- Reading a source keeps to the sets; what comes of it shows what is legible, if the definition
    is. -/
theorem confined_resolveSource {d : Definition} {content : Content} {r : Except Error (List Inline)}
    (hc : Confined c₀ nodes legible c) (hd : c.definition? id = some d)
    (hcontent : content ∈ d.kind.contents) (hunparsed : content.stage = .unparsed)
    (h : (Engine.resolveSource handle id content.source).Gives c r c₁) :
    Confined c₀ nodes legible c₁ ∧
      ∀ l, r = .ok l → legible id → ∀ t ∈ Inline.shownTargets l, legible t := by
  have hmoves := Engine.resolveSource_moves (permits_confined c₀ nodes legible)
    (fun c document _ hc => hc.of_core_eq (c.core_modifyFootnotes document _)) hh id content.source
  refine ⟨hmoves _ _ _ h hc, ?_⟩
  rintro l rfl hid
  exact shown_of_resolveSource hh hc hd hcontent hunparsed (fun _ => hconfines.shows hid) h

/-- The handling of a text keeps to the sets. -/
theorem confined_resolveContent {d : Definition} {content : Content} {r : Except Error Unit}
    (hd : c.definition? id = some d) (hcontent : content ∈ d.kind.contents)
    (h : (Engine.resolveContent handle id content).Gives c r c')
    (hc : Confined c₀ nodes legible c) : Confined c₀ nodes legible c' := by
  rcases Engine.gives_resolveContent h with ⟨-, -, rfl⟩ | ⟨hunparsed, r₁, c₁, hsource, hends⟩
  · exact hc
  obtain ⟨hc₁, hl⟩ := confined_resolveSource hh hconfines hc hd hcontent hunparsed hsource
  rcases hends with ⟨_, -, -, rfl⟩ | ⟨l, rfl, -, rfl⟩
  · exact hc₁
  · exact hc₁.resolveCommands (hl l rfl)

end

/-- **The command pass of a definition keeps to the sets.** -/
theorem confined_handleCommands (hconfines : c₀.Confines nodes legible) (n : Nat)
    (id : DefinitionId) : (Engine.handleCommands n id).Moves fun c c' =>
      Confined c₀ nodes legible c → Confined c₀ nodes legible c' :=
  Engine.handleCommands_moves (permits_confined c₀ nodes legible).toComposes
    (fun {c c₁} h hc => (h (hc.of_core_eq (c.core_atDepth _))).of_core_eq (c₁.core_atDepth _))
    (fun hd hk hnone hl hc => (hc.setTarget hconfines hd hk hnone hl).2)
    (fun _ hh _ _ _ _ _ _ hd hcontent h => confined_resolveContent hh hconfines hd hcontent h) n id

end Rubric
