/-
  Rubric — sessions: how contexts are built and used.

  * `Edit`: one use of the building interface, or a change of what is
    registered or set.  Any definition may be added, copies of others too;
  * `Edit.Applies`: the parent of what is added exists, and what is added by hand
    is not resolved and has its parts in its own document;
  * `Call`: a pass that is asked for.  `call.Ends c r c'`: from `c` it ends with
    `r` and leaves `c'`;
  * `Session c₀ events c`: edits that apply, and calls, in any order lead from `c₀`
    to `c`;
  * `Context.Reached E P c`: edits of `E` and calls of `P` lead to `c`;
  * **`Context.IsBuilt.isFresh`**: in a context that is only built nothing is
    resolved, parents come before their parts, and no value is a part.
-/
import Rubric.Proofs.Engine
import Rubric.Proofs.Node

namespace Rubric

/-! ## Edits -/

/-- A change of a context from outside. -/
inductive Edit where
  | addDocument (key name : String)
  | setAuthor (document : DocumentId) (author : String)
  | addVersion (document : DocumentId) (language : Language) (font : Option String)
  | addSection (parent : DefinitionId) (key title : Option String)
  | addStanza (parent : DefinitionId) (key : Option String) (source : String)
  | addParagraph (parent : DefinitionId) (key : Option String) (source : String)
  | addPartReference (parent : DefinitionId) (key : Option String) (targetKey : String)
  /-- Any definition: a value or a stanza in no section, or a copy, resolved or not, of another
      definition. -/
  | addDefinition (d : Definition) (document : Option DocumentId)
  | setSourceText (id : DefinitionId) (source : String)
  | setLanguage (id : DefinitionId) (language : Language)
  | setFont (id : DefinitionId) (font : String)
  | addReference (definition user : DefinitionId)
  | setCommands (commands : Commands)
  | setFonts (fonts : FontRegistry)
  | registerAnalyzer (language : KnownLanguage) (analyzer : Analyzer)
  | setSettings (settings : Settings)

/-- The stage is that of an unread text, or not. -/
instance Stage.decidableUnparsed : ∀ stage : Stage, Decidable (stage = .unparsed)
  | .unparsed => isTrue rfl
  | .commandsResolved _ | .fullyResolved _ => isFalse nofun

instance DefinitionKind.decidableMultilingual :
    ∀ kind : DefinitionKind, Decidable kind.IsMultilingual
  | .multilingual runs => isTrue ⟨runs, rfl⟩
  | .section _ | .stanza _ | .paragraph _ | .partReference _ | .boolean _ | .integer _ =>
    isFalse nofun

/-- A definition of the kind may be added to the document: nothing in it is resolved, and its parts
    are definitions of the document, of which none is a value. -/
structure Context.Accepts (c : Context) (document : Option DocumentId) (kind : DefinitionKind) :
    Prop where
  contents : ∀ content ∈ kind.contents, content.stage = .unparsed
  target : kind.target? = none
  children : ∀ child ∈ kind.children,
    ∃ d, c.definition? child = some d ∧ ¬ d.kind.IsMultilingual ∧ d.document = document

instance (c : Context) (document : Option DocumentId) (kind : DefinitionKind) :
    Decidable (c.Accepts document kind) :=
  decidable_of_iff ((∀ content ∈ kind.contents, content.stage = .unparsed) ∧ kind.target? = none ∧
      ∀ child ∈ kind.children,
        ∃ d ∈ c.definition? child, ¬ d.kind.IsMultilingual ∧ d.document = document)
    ⟨fun h => ⟨h.1, h.2.1, h.2.2⟩, fun h => ⟨h.contents, h.target, h.children⟩⟩

/-- What has no parts may be added to any document. -/
theorem DefinitionKind.IsFresh.accepts {kind : DefinitionKind} (h : kind.IsFresh) (c : Context)
    (document : Option DocumentId) : c.Accepts document kind where
  contents := h.contents
  target := h.target
  children := by simp [h.children]

namespace Edit

/-- The context after the edit. -/
def apply (c : Context) : Edit → Context
  | addDocument key name => (c.addDocument key name).2
  | setAuthor document author => c.setAuthor document author
  | addVersion document language font => (c.addVersion document language font).2
  | addSection parent key title => (c.addSection parent key title).2
  | addStanza parent key source => (c.addStanza parent key source).2
  | addParagraph parent key source => (c.addParagraph parent key source).2
  | addPartReference parent key targetKey => (c.addPartReference parent key targetKey).2
  | addDefinition d document => (c.addDefinition d document).2
  | setSourceText id source => c.setSourceText id source
  | setLanguage id language => c.setLanguage id language
  | setFont id font => c.setFont id font
  | addReference definition user => c.addReference definition user
  | setCommands commands => { c with commands }
  | setFonts fonts => { c with fonts }
  | registerAnalyzer language analyzer => c.registerAnalyzer language analyzer
  | setSettings settings => { c with settings }

/-- The parent of what is added. -/
def parent? : Edit → Option DefinitionId
  | addSection parent _ _ | addStanza parent _ _ | addParagraph parent _ _
  | addPartReference parent _ _ => some parent
  | addDefinition d _ => d.parent
  | _ => none

/-- The document that the edit names. -/
def document? : Edit → Option DocumentId
  | setAuthor document _ | addVersion document _ _ => some document
  | addDefinition _ document => document
  | _ => none

/-- The definition that is added by hand. -/
def made? : Edit → Option Definition
  | addDefinition d _ => some d
  | _ => none

/-- The parent of what is added exists. -/
def FindsParent (c : Context) (e : Edit) : Prop :=
  ∀ parent ∈ e.parent?, (c.definition? parent).isSome

instance (c : Context) (e : Edit) : Decidable (e.FindsParent c) :=
  inferInstanceAs (Decidable (∀ parent ∈ e.parent?, (c.definition? parent).isSome))

/-- The parent of what is added exists.  What is added by hand is not resolved, and its parts, if
    it is a copy of a section, are in the document that it comes into. -/
def Applies (c : Context) (e : Edit) : Prop :=
  e.FindsParent c ∧ ∀ d ∈ e.made?, c.Accepts e.document? d.kind

instance (c : Context) (e : Edit) : Decidable (e.Applies c) :=
  inferInstanceAs (Decidable (e.FindsParent c ∧ ∀ d ∈ e.made?, c.Accepts e.document? d.kind))

/-- Each edit of a list is one of `E` in the context that those before it lead to. -/
def All (E : Context → Edit → Prop) : Context → List Edit → Prop
  | _, [] => True
  | c, e :: edits => E c e ∧ All E (e.apply c) edits

instance decidableAll {E : Context → Edit → Prop} [∀ c e, Decidable (E c e)] :
    ∀ c edits, Decidable (All E c edits)
  | _, [] => isTrue trivial
  | c, e :: edits =>
    have := decidableAll (E := E) (e.apply c) edits
    inferInstanceAs (Decidable (E c e ∧ All E (e.apply c) edits))

/-- Adds a stanza that stands in no section. -/
def addStandaloneStanza (document : Option DocumentId) (key : Option String) (source : String) :
    Edit :=
  .addDefinition { key, kind := .stanza (.ofSource source) } document

end Edit

/-! ## Calls -/

/-- A pass that is asked for. -/
inductive Call where
  | commands (id : DefinitionId)
  | fonts (id : DefinitionId)
  | document (id : DocumentId)

namespace Call

/-- The pass, nested at most `n` deep. -/
def pass (n : Nat) : Call → Engine Unit
  | commands id => Engine.handleCommands n id
  | fonts id => Engine.handleFonts n id
  | document id => Engine.resolveDocument n id

/-- From `c` the call ends with `r` and leaves `c'`. -/
def Ends (call : Call) (c : Context) (r : Except Error Unit) (c' : Context) : Prop :=
  ∃ n, (call.pass n).Gives c r c'

/-- The context that the call leaves, nested at most `n` deep. -/
def run (n : Nat) (call : Call) (c : Context) : Context :=
  (((call.pass n).answer? c).map (·.2)).getD c

/-- If there is an answer, the pass gives it and leaves the context of the run. -/
theorem gives_run {n : Nat} {call : Call} {c : Context} {ok : Bool}
    (h : ((call.pass n).answer? c).map (·.1.isOk) = some ok) :
    ∃ r : Except Error Unit, (call.pass n).Gives c r (call.run n c) ∧ r.isOk = ok := by
  obtain ⟨⟨r, c'⟩, ha, hr⟩ := Option.map_eq_some_iff.1 h
  refine ⟨r, ?_, hr⟩
  rw [Engine.Gives, run, ha]; rfl

theorem ends_run {n : Nat} {call : Call} {c : Context}
    (h : ((call.pass n).answer? c).map (·.1.isOk) = some true) :
    call.Ends c (.ok ()) (call.run n c) := by
  obtain ⟨r, hgives, hr⟩ := gives_run h
  rcases r with e | ⟨⟨⟩⟩
  · cases hr
  · exact ⟨n, hgives⟩

theorem ends_run_error {n : Nat} {call : Call} {c : Context}
    (h : ((call.pass n).answer? c).map (·.1.isOk) = some false) :
    ∃ e, call.Ends c (.error e) (call.run n c) := by
  obtain ⟨r, hgives, hr⟩ := gives_run h
  rcases r with e | ⟨⟨⟩⟩
  · exact ⟨e, n, hgives⟩
  · cases hr

end Call

/-! ## Sessions -/

/-- What happens in a session. -/
inductive Event where
  | edit (e : Edit)
  | call (call : Call) (result : Except Error Unit)

/-- The event is an edit. -/
def Event.IsEdit : Event → Prop
  | edit _ => True
  | call _ _ => False

/-- The event is a call. -/
def Event.IsCall : Event → Prop
  | edit _ => False
  | call _ _ => True

/-- The events lead from `c₀` to the last context; the edits among them apply. -/
inductive Session (c₀ : Context) : List Event → Context → Prop
  | start : Session c₀ [] c₀
  | edit {events : List Event} {c : Context} {e : Edit} :
      Session c₀ events c → e.Applies c → Session c₀ (events ++ [.edit e]) (e.apply c)
  | call {events : List Event} {c c' : Context} {call : Call} {r : Except Error Unit} :
      Session c₀ events c → call.Ends c r c' → Session c₀ (events ++ [.call call r]) c'

namespace Session

variable {c₀ c : Context} {events : List Event}

/-- Edits that apply one after the other continue a session. -/
theorem edits {edits : List Edit} (h : Session c₀ events c)
    (he : Edit.All Edit.Applies c edits) :
    Session c₀ (events ++ edits.map .edit) (edits.foldl Edit.apply c) := by
  induction edits generalizing c events with
  | nil => simpa using h
  | cons e edits ih =>
    have hnext := ih (.edit h he.1) he.2
    rw [List.append_assoc] at hnext
    exact hnext

/-- What every call keeps holds throughout a session of calls. -/
theorem invariant {P : Context → Prop} (h : Session c₀ events c) (hc : ∀ e ∈ events, e.IsCall)
    (h₀ : P c₀) (hstep : ∀ {call : Call} {c r c'}, .call call r ∈ events → P c →
      call.Ends c r c' → P c') : P c := by
  induction h with
  | start => exact h₀
  | edit _ _ _ => exact (hc _ List.mem_concat_self).elim
  | call _ hends ih =>
    refine hstep List.mem_concat_self (ih (fun e he => hc e (by simp [he])) ?_) hends
    exact fun hcall => hstep (List.mem_append_left _ hcall)

/-- What a call of a session brings about holds from then on, if all calls keep it. -/
theorem after {P Q : Context → Prop} {call : Call} {r : Except Error Unit}
    (h : Session c₀ events c) (hc : ∀ e ∈ events, e.IsCall) (h₀ : P c₀)
    (hstep : ∀ {call : Call} {c r c'}, .call call r ∈ events → P c → call.Ends c r c' → P c')
    (hcall : .call call r ∈ events) (hest : ∀ {c c'}, P c → call.Ends c r c' → Q c')
    (hkeep : ∀ {call : Call} {c r c'}, P c → Q c → call.Ends c r c' → Q c') : Q c := by
  induction h with
  | start => simp at hcall
  | edit _ _ _ => exact (hc _ List.mem_concat_self).elim
  | @call events _ _ _ _ hs hends ih =>
    have hc' := fun e he => hc e (List.mem_append_left _ he)
    have hstep' : ∀ {call : Call} {c r c'}, .call call r ∈ events → P c → call.Ends c r c' → P c' :=
      fun hcall => hstep (List.mem_append_left _ hcall)
    have hP := hs.invariant hc' h₀ hstep'
    rcases List.mem_append.1 hcall with hcall | hcall
    · exact hkeep hP (ih hc' hstep' hcall) hends
    · cases List.mem_singleton.1 hcall
      exact hest hP hends

end Session

/-- The context is made by edits that apply, and by nothing else. -/
def Context.IsBuilt (c : Context) : Prop :=
  ∃ settings events, Session (Context.new settings) events c ∧ ∀ e ∈ events, e.IsEdit

theorem Context.isBuilt_new (settings : Settings) : (Context.new settings).IsBuilt :=
  ⟨settings, [], .start, by simp⟩

/-- Edits that apply lead from a built context to a built one. -/
theorem Context.IsBuilt.edits {c : Context} {edits : List Edit} (h : c.IsBuilt)
    (he : Edit.All Edit.Applies c edits) : (edits.foldl Edit.apply c).IsBuilt := by
  obtain ⟨settings, events, hs, hedits⟩ := h
  refine ⟨settings, _, hs.edits he, fun event hevent => ?_⟩
  rcases List.mem_append.1 hevent with hevent | hevent
  · exact hedits event hevent
  · obtain ⟨e, -, rfl⟩ := List.mem_map.1 hevent
    trivial

/-! ## Contexts that are reached -/

namespace Context

/-- Edits and calls lead from a new context to this one.  Every edit is one of `E` in the context
    that it changes, and every call, with its result, one of `P` in the context it starts from. -/
inductive Reached (E : Context → Edit → Prop) (P : Context → Call → Except Error Unit → Prop) :
    Context → Prop
  | new (settings : Settings) : Reached E P (.new settings)
  | edit {c : Context} {e : Edit} : Reached E P c → E c e → Reached E P (e.apply c)
  | call {c c' : Context} {call : Call} {r : Except Error Unit} :
      Reached E P c → P c call r → call.Ends c r c' → Reached E P c'

/-- Edits of `E` and any calls lead to the context. -/
def ReachedBy (E : Context → Edit → Prop) : Context → Prop :=
  Reached E fun _ _ _ => True

namespace Reached

variable {c : Context} {E : Context → Edit → Prop}
  {P : Context → Call → Except Error Unit → Prop}

/-- Edits of `E`, one after the other. -/
theorem edits {edits : List Edit} (h : Reached E P c) (he : Edit.All E c edits) :
    Reached E P (edits.foldl Edit.apply c) := by
  induction edits generalizing c with
  | nil => exact h
  | cons e edits ih => exact ih (.edit h he.1) he.2

end Reached

end Context

/-! ## Built contexts -/

namespace Context

/-- Nothing is resolved, parents come before their parts, no value is a part, and parts are in the
    document of their section. -/
structure IsFresh (c : Context) : Prop where
  contents : ∀ {id d}, c.definition? id = some d →
    ∀ content ∈ d.kind.contents, content.stage = .unparsed
  target : ∀ {id d}, c.definition? id = some d → d.kind.target? = none
  children : ∀ {id d}, c.definition? id = some d →
    ∀ child ∈ d.kind.children, ∃ d', c.definition? child = some d' ∧
      ¬ d'.kind.IsMultilingual ∧ d'.document = d.document
  parents : ∀ {id d p}, c.definition? id = some d → d.parent = some p → p.index < id.index

namespace IsFresh

variable {c c' : Context} (h : c.IsFresh)
include h

theorem of_definitions_eq (he : c'.definitions = c.definitions) : c'.IsFresh := by
  have hd := definition?_of_definitions_eq he
  constructor
  · intro id d; rw [hd]; exact h.contents
  · intro id d; rw [hd]; exact h.target
  · intro id d; simp only [hd]; exact h.children
  · intro id d p; rw [hd]; exact h.parents

/-- A definition is added that is not resolved, and of which the parent exists. -/
theorem addDefinition {d : Definition} {document : Option DocumentId}
    (hd : c.Accepts document d.kind) (hp : ∀ p, d.parent = some p → (c.definition? p).isSome) :
    (c.addDefinition d document).2.IsFresh := by
  constructor
  · intro id d' hid
    rcases of_definition?_addDefinition hid with hold | ⟨-, rfl⟩
    · exact h.contents hold
    · exact hd.contents
  · intro id d' hid
    rcases of_definition?_addDefinition hid with hold | ⟨-, rfl⟩
    · exact h.target hold
    · exact hd.target
  · intro id d' hid child hchild
    rcases of_definition?_addDefinition hid with hold | ⟨-, rfl⟩
    · obtain ⟨d'', hd'', hm⟩ := h.children hold child hchild
      exact ⟨d'', definition?_addDefinition_of_some hd'', hm⟩
    · obtain ⟨d'', hd'', hm⟩ := hd.children child hchild
      exact ⟨d'', definition?_addDefinition_of_some hd'', hm⟩
  · intro id d' p hid hparent
    rcases of_definition?_addDefinition hid with hold | ⟨hi, rfl⟩
    · exact h.parents hold hparent
    · obtain ⟨dp, hdp⟩ := Option.isSome_iff_exists.1 (hp p hparent)
      rw [hi]; exact index_lt_of_definition? hdp

/-- A definition is changed, but stays unresolved under its parent. -/
theorem modifyDefinition {id : DefinitionId} {f : Definition → Definition}
    (hcontents : ∀ d, c.definition? id = some d →
      ∀ content ∈ (f d).kind.contents, content.stage = .unparsed)
    (htarget : ∀ d, c.definition? id = some d → (f d).kind.target? = none)
    (hchildren : ∀ d, c.definition? id = some d → ∀ child ∈ (f d).kind.children,
      ∃ d', c.definition? child = some d' ∧ ¬ d'.kind.IsMultilingual ∧ d'.document = d.document)
    (hparent : ∀ d, (f d).parent = d.parent) (hdocument : ∀ d, (f d).document = d.document)
    (hvalue : ∀ d, c.definition? id = some d → (f d).kind.IsMultilingual → d.kind.IsMultilingual) :
    (c.modifyDefinition id f).IsFresh := by
  have hexists : ∀ {x d}, c.definition? x = some d → ¬ d.kind.IsMultilingual →
      ∃ d', (c.modifyDefinition id f).definition? x = some d' ∧ ¬ d'.kind.IsMultilingual ∧
        d'.document = d.document := by
    intro x d hx hm
    rw [definition?_modifyDefinition]
    by_cases he : id = x
    · subst he
      exact ⟨f d, by simp [hx], fun hf => hm (hvalue d hx hf), hdocument d⟩
    · exact ⟨d, by simp [he, hx], hm, rfl⟩
  constructor
  · intro x d' hx
    rcases of_definition?_modifyDefinition hx with ⟨-, hx⟩ | ⟨rfl, d, hd, rfl⟩
    · exact h.contents hx
    · exact hcontents d hd
  · intro x d' hx
    rcases of_definition?_modifyDefinition hx with ⟨-, hx⟩ | ⟨rfl, d, hd, rfl⟩
    · exact h.target hx
    · exact htarget d hd
  · intro x d' hx child hchild
    have hc : ∃ d'', c.definition? child = some d'' ∧ ¬ d''.kind.IsMultilingual ∧
        d''.document = d'.document := by
      rcases of_definition?_modifyDefinition hx with ⟨-, hx⟩ | ⟨rfl, d, hd, rfl⟩
      · exact h.children hx child hchild
      · rw [hdocument]
        exact hchildren d hd child hchild
    obtain ⟨d'', hd'', hm, hsame⟩ := hc
    rw [← hsame]
    exact hexists hd'' hm
  · intro x d' p hx hp
    rcases of_definition?_modifyDefinition hx with ⟨-, hx⟩ | ⟨rfl, d, hd, rfl⟩
    · exact h.parents hx hp
    · exact h.parents hd ((hparent d).symm.trans hp)

/-- A change of what is no part, text or target of a definition. -/
theorem modifyDefinition_of_kind_eq {id : DefinitionId} {f : Definition → Definition}
    (hkind : ∀ d, (f d).kind = d.kind) (hparent : ∀ d, (f d).parent = d.parent)
    (hdocument : ∀ d, (f d).document = d.document) : (c.modifyDefinition id f).IsFresh := by
  refine h.modifyDefinition ?_ ?_ ?_ hparent hdocument ?_ <;> intro d hd
  · rw [hkind]; exact h.contents hd
  · rw [hkind]; exact h.target hd
  · rw [hkind]; exact h.children hd
  · rw [hkind]; exact fun hm => hm

/-- A part is added under a parent that exists. -/
theorem addChild {parent : DefinitionId} {key : Option String} {kind : DefinitionKind}
    (hkind : kind.IsFresh) (hvalue : ¬ kind.IsMultilingual) (hp : (c.definition? parent).isSome) :
    (c.addChild parent key kind).2.IsFresh := by
  obtain ⟨d₀, hd₀⟩ := Option.isSome_iff_exists.1 hp
  unfold Context.addChild
  rw [hd₀]
  dsimp only [Option.bind_some]
  generalize hdocument : d₀.document = document
  have hd₁ : (c.addDefinition { key, parent := some parent, kind } document).2.definition? parent =
      some d₀ :=
    definition?_addDefinition_of_some hd₀
  have hadd : (c.addDefinition { key, parent := some parent, kind } document).2.IsFresh :=
    h.addDefinition (hkind.accepts c document) (by rintro p ⟨⟩; exact hp)
  have hnew : (c.addDefinition { key, parent := some parent, kind } document).2.definition?
      (c.addDefinition { key, parent := some parent, kind } document).1 =
        some { key, parent := some parent, kind, document } := by
    rw [definition?_addDefinition, Context.addDefinition, if_pos rfl]
  generalize c.addDefinition { key, parent := some parent, kind } document = added
    at hadd hnew hd₁ ⊢
  obtain ⟨child, c₁⟩ := added
  dsimp only at hadd hnew hd₁ ⊢
  rw [hd₁, Option.map_some]
  rcases hs : d₀.kind with body | _ | _ | _ | _ | _ | _
  case «section» =>
    refine hadd.modifyDefinition ?_ ?_ ?_ (fun d => rfl) (fun d => rfl) ?_ <;> intro d hd
    all_goals
      obtain rfl : d₀ = d := Option.some.inj (hd₁.symm.trans hd)
    · exact fun content hcontent => hadd.contents hd₁ content (by rw [hs]; exact hcontent)
    · rfl
    · intro x hx
      rcases List.mem_append.1 hx with hx | hx
      · exact hadd.children hd₁ x (by rw [hs]; exact hx)
      · rw [List.mem_singleton.1 hx]; exact ⟨_, hnew, hvalue, hdocument.symm⟩
    · rintro ⟨runs, hr⟩; cases hr
  all_goals exact hadd.of_definitions_eq rfl

/-- A source text is set. -/
theorem setSourceText (id : DefinitionId) (source : String) :
    (c.setSourceText id source).IsFresh := by
  unfold Context.setSourceText
  rcases hd : c.definition? id with _ | d
  · exact h
  · rw [Option.map_some]
    rcases hs : d.kind with body | content | content | _ | _ | _ | _
    case «section» | stanza | paragraph =>
      refine h.modifyDefinition ?_ ?_ ?_ (fun d => rfl) (fun d => rfl) ?_ <;> intro d' hd'
      all_goals
        obtain rfl : d = d' := Option.some.inj (hd.symm.trans hd')
      · simp [DefinitionKind.contents, Content.ofSource]
      · rfl
      · exact fun child hchild => h.children hd child (by rw [hs]; exact hchild)
      · rintro ⟨runs, hr⟩; cases hr
    all_goals exact h.of_definitions_eq rfl

/-- An edit leaves nothing resolved. -/
theorem edit {e : Edit} (he : e.Applies c) : (e.apply c).IsFresh := by
  cases e with
  | addDocument | setAuthor | setCommands | setFonts | registerAnalyzer | setSettings =>
    exact h.of_definitions_eq rfl
  | addVersion document language font =>
    have hadd : (c.addDefinition { language := some language, font, kind := .section {} }
        (some document)).2.IsFresh :=
      h.addDefinition ⟨by simp [DefinitionKind.contents], rfl, by rintro _ ⟨⟩⟩ (by simp)
    exact hadd.of_definitions_eq rfl
  | addSection parent key title =>
    refine h.addChild ⟨?_, rfl, rfl⟩ ?_ (he.1 parent rfl)
    · cases title <;> simp [DefinitionKind.contents, Content.ofSource]
    · rintro ⟨runs, hr⟩; cases hr
  | addStanza parent key source | addParagraph parent key source =>
    refine h.addChild ⟨?_, rfl, rfl⟩ ?_ (he.1 parent rfl)
    · simp [DefinitionKind.contents, Content.ofSource]
    · rintro ⟨runs, hr⟩; cases hr
  | addPartReference parent key targetKey =>
    refine h.addChild ⟨?_, rfl, rfl⟩ ?_ (he.1 parent rfl)
    · simp [DefinitionKind.contents]
    · rintro ⟨runs, hr⟩; cases hr
  | addDefinition d document => exact h.addDefinition (he.2 d rfl) he.1
  | setSourceText id source => exact h.setSourceText id source
  | setLanguage | setFont | addReference =>
    exact h.modifyDefinition_of_kind_eq (fun d => rfl) (fun d => rfl) fun d => rfl

end IsFresh

theorem isFresh_new (settings : Settings) : (new settings).IsFresh := by
  constructor <;> simp [new, definition?]

/-- **In a built context nothing is resolved.** -/
theorem IsBuilt.isFresh {c : Context} (h : c.IsBuilt) : c.IsFresh := by
  obtain ⟨settings, events, hs, he⟩ := h
  induction hs with
  | start => exact isFresh_new settings
  | edit _ happ ih => exact (ih fun e hmem => he e (by simp [hmem])).edit happ
  | call _ _ _ => exact (he _ List.mem_concat_self).elim

end Context

end Rubric
