/-
  Rubric — the frames of an error are a path of passes.

  * `Engine.Fails`: how the command pass of a node comes to an error, over those
    of the nodes it goes on to; `Engine.Traced`: a whole path of such passes, each
    begun by the one before, to what raised the cause first;
  * `Engine.fails_of_commandPass`: one step of the path;
  * `Frame.IsOf`, `Frame.Encloses`: what the frames of nodes say of the context
    that the pass leaves; `Context.Charts`;
  * **`traced_of_error`**: the frames of an error are those of such a path, and
    say so of the context that is left.
-/
import Mathlib.Data.List.Chain
import Rubric.Proofs.Blame
import Rubric.Proofs.Rest

namespace Rubric

open Context

variable {c c' c₁ c₂ : Context} {id x y : DefinitionId} {n : Nat} {d : Definition} {e : Error}

/-! ## Paths -/

/-- An unread text of the definition is read as the inlines, and the tags are in effect at it. -/
def Context.Reads (c : Context) (id : DefinitionId) (d : Definition) (tags : Tags)
    (l : List Inline) : Prop :=
  ∃ content ∈ d.kind.contents, content.stage = .unparsed ∧
    Markup.parse c.commands content.source = .ok l ∧ c.effectiveTags? id = some tags

namespace Engine

/-- The command pass of the node from `c` comes to an error with the cause behind the frames, where
    `Inner` says this of the passes of other nodes, which are nested at most `n` deep. -/
inductive Fails (n : Nat) (Inner : DefinitionId → Context → List Frame → Cause → Prop)
    (id : DefinitionId) (c : Context) (d : Definition) : List Frame → Cause → Prop
  /-- The markup of its text is malformed. -/
  | markup {content : Content} {cause : Cause} :
      content ∈ d.kind.contents → content.stage = .unparsed →
      Markup.parse c.commands content.source = .error cause → Fails n Inner id c d [] cause
  /-- A command in its text raises the cause. -/
  | command {tags : Tags} {l ps : List Inline} {names : List String} {call : Invocation}
      {kind : CommandKind} {c₁ : Context} {cause : Cause} :
      c.Reads id d tags l →
      Inline.Begins (handleCommands n) { owner := id, document := d.document } tags l c names call
        kind ps c₁ →
      call.Raises (handleCommands n) kind ps c₁ cause →
      Fails n Inner id c d (names.map .command) cause
  /-- A command in its text inserts a definition whose pass comes to the error. -/
  | insertion {tags : Tags} {l ps : List Inline} {names : List String} {call : Invocation}
      {kind : CommandKind} {target : DefinitionId} {c₁ c₂ : Context} {frames : List Frame}
      {cause : Cause} :
      c.Reads id d tags l →
      Inline.Begins (handleCommands n) { owner := id, document := d.document } tags l c names call
        kind ps c₁ →
      call.Inserts (handleCommands n) kind ps c₁ target c₂ →
      Inner target c₂ frames cause →
      Fails n Inner id c d (names.map .command ++ frames) cause
  /-- The key of a part reference leads nowhere. -/
  | missing {reference : PartReference} :
      d.kind = .partReference reference → reference.target = none →
      c.lookup? reference.targetKey d.document = none →
      Fails n Inner id c d [] (.definitionNotFound reference.targetKey none)
  /-- The pass of the target of a part reference comes to the error. -/
  | target {target : DefinitionId} {frames : List Frame} {cause : Cause} :
      d.kind.target? = some target → Inner target c frames cause →
      Fails n Inner id c d frames cause
  /-- The pass of the target comes to the error, once the key has led to it. -/
  | found {reference : PartReference} {target : DefinitionId} {frames : List Frame}
      {cause : Cause} :
      d.kind = .partReference reference → reference.target = none →
      c.lookup? reference.targetKey d.document = some target →
      Inner target ((c.addReference target id).setTarget id target) frames cause →
      Fails n Inner id c d frames cause
  /-- The pass of a child comes to the error, after the title and the children before it have come
      to none. -/
  | child {before after : List DefinitionId} {child : DefinitionId} {c₁ c₂ : Context}
      {frames : List Frame} {cause : Cause} :
      d.kind.children = before ++ child :: after →
      (runAll (d.kind.contents.map (resolveContent (handleCommands n) id))).Gives c (.ok ()) c₁ →
      (runAll (before.map (handleCommands n))).Gives c₁ (.ok ()) c₂ →
      Inner child c₂ frames cause → Fails n Inner id c d frames cause

/-- The command pass of the node, nested at most `n` deep, comes to an error with the cause behind
    the frames: it is refused at the depth limit, or it fails one level deeper, behind its own
    frame. -/
def Traced : Nat → DefinitionId → Context → List Frame → Cause → Prop
  | 0, _, _, _, _ => False
  | n + 1, id, c, frames, cause =>
    (∃ limit, c.settings.depthLimit = some limit ∧ limit ≤ c.depth ∧ frames = [] ∧
      cause = .depthExceeded limit) ∨
    ∃ d inner, c.definition? id = some d ∧ frames = .commands id d.key :: inner ∧
      Fails n (Traced n) id (c.atDepth (c.depth + 1)) d inner cause

theorem Fails.mono {Inner Inner' : DefinitionId → Context → List Frame → Cause → Prop}
    (hi : ∀ {x c frames cause}, Inner x c frames cause → Inner' x c frames cause)
    {frames : List Frame} {cause : Cause} (h : Fails n Inner id c d frames cause) :
    Fails n Inner' id c d frames cause := by
  cases h with
  | markup hcontent hunparsed hparse => exact .markup hcontent hunparsed hparse
  | command hreads hbegins hraises => exact .command hreads hbegins hraises
  | insertion hreads hbegins hinserts h => exact .insertion hreads hbegins hinserts (hi h)
  | missing hk hnone hl => exact .missing hk hnone hl
  | target ht h => exact .target ht (hi h)
  | found hk hnone hl h => exact .found hk hnone hl (hi h)
  | child hchildren htitle hbefore h => exact .child hchildren htitle hbefore (hi h)

/-! ## One step -/

/-- The error of a run is that of its first computation that ends with one. -/
theorem gives_runAll_error {xs : List (Engine Unit)} (h : (runAll xs).Gives c (.error e) c') :
    ∃ before x after c₁ c₂ r, xs = before ++ x :: after ∧ (runAll before).Gives c (.ok ()) c₁ ∧
      x.Gives c₁ (.error e) c₂ ∧ (runAll after).Gives c₂ r c' := by
  induction xs generalizing c with
  | nil => cases (gives_pure.1 h).1
  | cons x xs ih =>
    obtain ⟨r₁, c₁, r₂, hx, hxs, he⟩ := gives_runAll_cons.1 h
    rcases r₁ with e₁ | ⟨⟨⟩⟩
    · cases he
      exact ⟨[], x, xs, c, c₁, r₂, rfl, gives_pure.2 ⟨rfl, rfl⟩, hx, hxs⟩
    · cases he
      obtain ⟨before, y, after, c₂, c₃, r, rfl, hbefore, hy, hafter⟩ := ih hxs
      exact ⟨x :: before, y, after, c₂, c₃, r, rfl,
        gives_runAll_cons.2 ⟨_, c₁, _, hx, hbefore, rfl⟩, hy, hafter⟩

variable {handle : DefinitionId → Engine Unit} {content : Content}

/-- An error of a text: it is malformed, or a command in it is to blame. -/
theorem error_of_resolveContent (hd : c.definition? id = some d)
    (h : (resolveContent handle id content).Gives c (.error e) c') :
    content.stage = .unparsed ∧
      ((∃ cause, Markup.parse c.commands content.source = .error cause ∧ e = .ofCause cause) ∨
        ∃ l tags, Markup.parse c.commands content.source = .ok l ∧
          c.effectiveTags? id = some tags ∧
          Inline.Blames handle { owner := id, document := d.document } tags l c e c') := by
  rcases gives_resolveContent h with
    ⟨-, he, -⟩ | ⟨hunparsed, r₁, c₁, hsource, ⟨e₁, rfl, he, rfl⟩ | ⟨_, -, he, -⟩⟩
  · cases he
  · cases he
    refine ⟨hunparsed, ?_⟩
    rcases gives_resolveSource hsource with ⟨cause, hparse, he, -⟩ |
      ⟨l, tags, d', hparse, htags, hd', ⟨_, he, hl⟩ | ⟨_, _, _, he, -⟩⟩
    · cases he
      exact Or.inl ⟨cause, hparse, rfl⟩
    · cases he
      cases hd.symm.trans hd'
      exact Or.inr ⟨l, tags, hparse, htags, Inline.blamed_of_executeList hl⟩
    · cases he
  · cases he

/-- In the pass of the node, nested at most `n` deep, the error comes up, and what is left then is
    extended to the context. -/
def Leaves (n : Nat) (c' : Context) (id : DefinitionId) (c : Context) (frames : List Frame)
    (cause : Cause) : Prop :=
  ∃ c₁, (handleCommands n id).Gives c (.error { cause, frames }) c₁ ∧ Extends c₁ c'

/-- **One step of a path.**  An error of a command pass arises in a text of the node or at its key,
    or it is the error of one other pass. -/
theorem fails_of_commandPass (hd : c.definition? id = some d)
    (h : (commandPass (handleCommands n) id).Gives c (.error e) c') :
    Fails n (Leaves n c') id c d e.frames e.cause := by
  obtain ⟨d', hd', hgives⟩ := gives_commandPass h
  cases hd.symm.trans hd'
  generalize hr : Except.error e = r at hgives
  cases hgives with
  | @parts r₁ r₂ c₁ _ _ htext hparts =>
    rcases r₁ with e₁ | ⟨⟨⟩⟩
    · cases hr
      have hrest : Extends c₁ c' := by
        refine Moves.runAll composes_extends ?_ _ _ _ hparts
        exact List.forall_mem_map.2 fun child _ => extends_handleCommands n child
      rcases htext with ⟨-, he, -⟩ | ⟨content, hmem, htext⟩
      · cases he
      obtain ⟨hunparsed, ⟨cause, hparse, rfl⟩ | ⟨l, tags, hparse, htags, hblames⟩⟩ :=
        error_of_resolveContent hd htext
      · exact .markup hmem hunparsed hparse
      · have hreads : c.Reads id d tags l := ⟨content, hmem, hunparsed, hparse, htags⟩
        cases hblames with
        | raised hbegins hraises => exact .command hreads hbegins hraises
        | inserted hbegins hinserts hends =>
          exact .insertion hreads hbegins hinserts ⟨c₁, hends, hrest⟩
    · have htitle : (runAll (d.kind.contents.map (resolveContent (handleCommands n) id))).Gives c
          (.ok ()) c₁ := by
        rcases htext with ⟨hnone, -, rfl⟩ | ⟨content, hmem, htext⟩
        · rw [hnone]
          exact gives_pure.2 ⟨rfl, rfl⟩
        · rw [DefinitionKind.contents_eq_of_mem hmem]
          exact gives_runAll_singleton.2 htext
      cases hr
      obtain ⟨before, x, after, c₂, c₃, r, hall, hbefore, hx, hafter⟩ := gives_runAll_error hparts
      obtain ⟨before, rest, hchildren, rfl, hrest⟩ := List.map_eq_append_iff.1 hall
      obtain ⟨child, after, rfl, rfl, rfl⟩ := List.map_eq_cons_iff.1 hrest
      refine .child hchildren htitle hbefore ⟨c₃, hx, ?_⟩
      refine Moves.runAll composes_extends ?_ _ _ _ hafter
      exact List.forall_mem_map.2 fun child _ => extends_handleCommands n child
  | target hk ht hends =>
    subst hr
    exact .target (by rw [hk]; exact ht) ⟨c', hends, .refl c'⟩
  | found hk hnone hl hends =>
    subst hr
    exact .found hk hnone hl ⟨c', hends, .refl c'⟩
  | missing hk hnone hl =>
    cases hr
    exact .missing hk hnone hl

/-- A pass is refused at the depth limit, or it fails one level deeper behind its frame. -/
theorem error_of_handleCommands (h : (handleCommands (n + 1) id).Gives c (.error e) c') :
    (∃ limit, c.settings.depthLimit = some limit ∧ limit ≤ c.depth ∧
      e = .ofCause (.depthExceeded limit)) ∨
    ∃ d e₁ c₁, c.definition? id = some d ∧ e = e₁.within (.commands id d.key) ∧
      (commandPass (handleCommands n) id).Gives (c.atDepth (c.depth + 1)) (.error e₁) c₁ ∧
      c' = c₁.atDepth (c₁.depth - 1) := by
  rw [handleCommands, gives_definition_bind] at h
  obtain ⟨d, hd, h⟩ := h
  rcases gives_nested h with ⟨limit, hlimit, hle, he, -⟩ | ⟨r₁, c₁, hpass, he, hc'⟩
  · cases he
    exact Or.inl ⟨limit, hlimit, hle, rfl⟩
  · rcases r₁ with e₁ | a <;> cases he
    exact Or.inr ⟨d, e₁, c₁, hd, rfl, hpass, hc'⟩

/-- An error of a command pass comes along a path. -/
theorem traced_of_handleCommands (n : Nat) (h : (handleCommands n id).Gives c (.error e) c') :
    Traced n id c e.frames e.cause := by
  induction n generalizing id c e c' with
  | zero => exact (gives_endless.1 h).elim
  | succ n ih =>
    rcases error_of_handleCommands h with
      ⟨limit, hlimit, hle, rfl⟩ | ⟨d, e, c₁, hd, rfl, hpass, -⟩
    · exact Or.inl ⟨limit, hlimit, hle, rfl, rfl⟩
    · have hfails := fails_of_commandPass (c := c.atDepth (c.depth + 1)) hd hpass
      refine Or.inr ⟨d, e.frames, hd, rfl, hfails.mono ?_⟩
      rintro x c₂ frames cause ⟨c₃, hinner, -⟩
      exact ih hinner

end Engine

/-! ## Frames and nodes -/

namespace Frame

/-- The frame is that of a command, or of the command pass of a node with the node's key. -/
def IsOf (c : Context) : Frame → Prop
  | commands x key => ∃ d, c.definition? x = some d ∧ d.key = key
  | fonts _ _ => False
  | command _ => True

/-- If both frames are those of nodes, the second node is a child of the first one, or its
    target. -/
def Encloses (c : Context) : Frame → Frame → Prop
  | commands x _, commands y _ => ∃ d, c.definition? x = some d ∧ y ∈ d.kind.parts
  | _, _ => True

end Frame

namespace Context

/-- The frames begin with one of the node, if with any, and say of the context what is so. -/
structure Charts (c : Context) (id : DefinitionId) (frames : List Frame) : Prop where
  head : ∀ frame ∈ frames.head?, ∃ key, frame = .commands id key
  nodes : ∀ frame ∈ frames, frame.IsOf c
  chain : frames.IsChain (Frame.Encloses c)

/-- A definition keeps its key and its parts. -/
theorem Extends.parts (h : Extends c c') (hd : c.definition? x = some d) :
    ∃ d', c'.definition? x = some d' ∧ d'.key = d.key ∧ ∀ y ∈ d.kind.parts, y ∈ d'.kind.parts := by
  obtain ⟨references, kind, hd', -, hk⟩ := h.old hd
  refine ⟨_, hd', rfl, fun y hy => ?_⟩
  rcases List.mem_append.1 hy with hy | hy
  · exact List.mem_append_left _ (hk.keeps.children ▸ hy)
  · have ht := hk.keeps.target y (Option.mem_toList.1 hy)
    exact List.mem_append_right _ (Option.mem_toList.2 ht)

namespace Charts

variable {frames : List Frame}

theorem nil (c : Context) (id : DefinitionId) : c.Charts id [] where
  head := by simp
  nodes := by simp
  chain := .nil

theorem mono (h : c.Charts id frames) (hc : Extends c c') : c'.Charts id frames where
  head := h.head
  nodes frame hframe := by
    have hof := h.nodes frame hframe
    cases frame with
    | commands x key =>
      obtain ⟨d, hd, hkey⟩ := hof
      obtain ⟨d', hd', hkey', -⟩ := hc.parts hd
      exact ⟨d', hd', hkey'.trans hkey⟩
    | fonts => exact hof
    | command => trivial
  chain := by
    refine h.chain.imp fun frame frame' hencloses => ?_
    cases frame with
    | commands x key =>
      cases frame' with
      | commands y key' =>
        obtain ⟨d, hd, hy⟩ := hencloses
        obtain ⟨d', hd', -, hparts⟩ := hc.parts hd
        exact ⟨d', hd', hparts y hy⟩
      | fonts | command => trivial
    | fonts | command => cases frame' <;> trivial

theorem atDepth (h : c.Charts id frames) (depth : Nat) : (c.atDepth depth).Charts id frames :=
  ⟨h.head, h.nodes, h.chain⟩

/-- The frame of a node before others. -/
theorem cons (hd : c.definition? id = some d) (hnodes : ∀ frame ∈ frames, frame.IsOf c)
    (hchain : frames.IsChain (Frame.Encloses c))
    (hhead : ∀ frame ∈ frames.head?, Frame.Encloses c (.commands id d.key) frame) :
    c.Charts id (.commands id d.key :: frames) where
  head := by simp
  nodes := List.forall_mem_cons.2 ⟨⟨d, hd, rfl⟩, hnodes⟩
  chain := List.isChain_cons.2 ⟨hhead, hchain⟩

theorem single (hd : c.definition? id = some d) : c.Charts id [.commands id d.key] :=
  .cons hd (by simp) .nil (by simp)

/-- The frame of a node before those of its part. -/
theorem part (h : c.Charts y frames) (hd : c.definition? id = some d) (hy : y ∈ d.kind.parts) :
    c.Charts id (.commands id d.key :: frames) := by
  refine .cons hd h.nodes h.chain fun frame hframe => ?_
  obtain ⟨key, rfl⟩ := h.head frame hframe
  exact ⟨d, hd, hy⟩

/-- The frame of a node before those of commands, and of what the last of them inserts. -/
theorem commands {names : List String} (h : c.Charts y frames) (hd : c.definition? id = some d)
    (hnames : names ≠ []) :
    c.Charts id (.commands id d.key :: (names.map .command ++ frames)) := by
  have hnodes : ∀ frame ∈ names.map Frame.command ++ frames, frame.IsOf c := by
    intro frame hframe
    rcases List.mem_append.1 hframe with hframe | hframe
    · obtain ⟨name, -, rfl⟩ := List.mem_map.1 hframe
      trivial
    · exact h.nodes frame hframe
  have hchain : ∀ names : List String,
      (names.map Frame.command ++ frames).IsChain (Frame.Encloses c) := by
    intro names
    induction names with
    | nil => exact h.chain
    | cons name names ih => exact List.isChain_cons.2 ⟨fun _ _ => trivial, ih⟩
  refine .cons hd hnodes (hchain names) fun frame hframe => ?_
  obtain ⟨name, names, rfl⟩ := List.exists_cons_of_ne_nil hnames
  cases hframe
  trivial

end Charts

end Context

/-- A command that begins has a name. -/
theorem Inline.Begins.ne_nil {handle : DefinitionId → Engine Unit} {scope : Scope} {tags : Tags}
    {l ps : List Inline} {names : List String} {call : Invocation} {kind : CommandKind}
    (h : Begins handle scope tags l c names call kind ps c') : names ≠ [] := by
  induction h with
  | here => simp
  | later _ _ ih => exact ih
  | span _ ih => exact ih
  | parameter => simp

namespace Engine

/-- One step of a path leads from a node to what its text, its parts or its target say. -/
theorem Fails.charts {frames : List Frame} {cause : Cause} (hc : Extends c c')
    (hd : c.definition? id = some d)
    (ih : ∀ {x c frames cause}, Leaves n c' x c frames cause → c'.Charts x frames)
    (h : Fails n (Leaves n c') id c d frames cause) :
    c'.Charts id (.commands id d.key :: frames) := by
  obtain ⟨d', hd', hkey, hparts⟩ := hc.parts hd
  rw [← hkey]
  cases h with
  | markup | missing => exact .single hd'
  | command _ hbegins _ =>
    rw [← List.append_nil (List.map _ _)]
    exact (Charts.nil c' id).commands hd' hbegins.ne_nil
  | insertion _ hbegins _ hinner => exact (ih hinner).commands hd' hbegins.ne_nil
  | target ht hinner =>
    have hmem := List.mem_append_right d.kind.children (Option.mem_toList.2 ht)
    exact (ih hinner).part hd' (hparts _ hmem)
  | @found reference target _ _ hk _ _ hinner =>
    -- the target is set when its pass begins
    obtain ⟨c₂, hends, hrest⟩ := hinner
    obtain ⟨references, hset⟩ := definition?_setTarget hd hk target
    obtain ⟨d₂, hd₂, -, hparts₂⟩ :=
      ((extends_handleCommands n target _ _ _ hends).trans hrest).parts hset
    cases hd'.symm.trans hd₂
    have hmem := hparts₂ target (List.mem_append_right _ (Option.mem_toList.2 rfl))
    exact (ih ⟨c₂, hends, hrest⟩).part hd' hmem
  | @child before after child _ _ _ _ hchildren _ _ hinner =>
    have hmem : child ∈ d.kind.children := by
      rw [hchildren]
      simp
    exact (ih hinner).part hd' (hparts _ (List.mem_append_left _ hmem))

/-- The frames of an error of a command pass say of the context that is left what is so. -/
theorem charts_of_handleCommands (n : Nat) (h : (handleCommands n id).Gives c (.error e) c') :
    c'.Charts id e.frames := by
  induction n generalizing id c e c' with
  | zero => exact (gives_endless.1 h).elim
  | succ n ih =>
    rcases error_of_handleCommands h with
      ⟨limit, -, -, rfl⟩ | ⟨d, e, c₁, hd, rfl, hpass, rfl⟩
    · exact .nil c' id
    · have hext : Extends (c.atDepth (c.depth + 1)) c₁ :=
        extends_commandPass (extends_handleCommands n) _ _ _ _ hpass
      have hfails := fails_of_commandPass (c := c.atDepth (c.depth + 1)) hd hpass
      refine Charts.atDepth (hfails.charts hext hd ?_) _
      rintro x c₂ frames cause ⟨c₃, hinner, hrest⟩
      exact (ih hinner).mono hrest

end Engine

/-! ## The path of an error -/

/-- **The frames of an error are a path of passes.**  An error of a call for the commands of a
    definition comes along a path of passes and commands, each begun in the one before, and its
    cause is what was raised first at the end of that path; its frames are, outermost first, those
    of the passes and commands of the path.  Unless the call is refused at the depth limit, they
    begin with the frame of the definition.  In the context that is left, every frame of a
    definition has the definition's key, and after the frame of a definition there is that of a
    command, or of one of the definition's children, or of its target. -/
theorem traced_of_error (h : (Call.commands id).Ends c (.error e) c') :
    (∃ n, Engine.Traced n id c e.frames e.cause) ∧
      ((∃ limit, c.settings.depthLimit = some limit ∧ limit ≤ c.depth ∧
          e = .ofCause (.depthExceeded limit)) ∨
        ∃ key, e.frames.head? = some (.commands id key)) ∧
      (∀ frame ∈ e.frames, frame.IsOf c') ∧ e.frames.IsChain (Frame.Encloses c') := by
  obtain ⟨n, h⟩ := h
  have htraced := Engine.traced_of_handleCommands n h
  have hcharts := Engine.charts_of_handleCommands n h
  refine ⟨⟨n, htraced⟩, ?_, hcharts.nodes, hcharts.chain⟩
  rcases n with _ | n
  · exact htraced.elim
  · rcases Engine.error_of_handleCommands h with ⟨limit, hlimit, hle, he⟩ | ⟨d, e₁, _, -, rfl, -⟩
    · exact Or.inl ⟨limit, hlimit, hle, he⟩
    · exact Or.inr ⟨d.key, rfl⟩

/-- A part reference leads to a stanza with a footnote that inserts another stanza, where a key is
    missing; the stanza after it fails, too, but the error is that of the key, and its frames are
    the nodes and commands on the way. -/
theorem traced_of_error_of_missing_key :
    ∃ c c' e, (Call.commands ⟨0⟩).Ends c (.error e) c' ∧
      e.cause = .definitionNotFound "missing" none ∧
      e.frames = [.commands ⟨0⟩ none, .commands ⟨2⟩ none, .commands ⟨3⟩ (some "a"),
        .command "footnote", .command "def", .commands ⟨5⟩ (some "b"), .command "def"] ∧
      ∃ n, Engine.Traced n ⟨0⟩ c e.frames e.cause := by
  let c := [Edit.addDocument "d" "D", .addVersion ⟨0⟩ (.ofKnown .coptic) none,
    .addStanza ⟨0⟩ none "x", .addPartReference ⟨0⟩ none "a",
    .addStanza ⟨0⟩ (some "a") "\\footnote\x7b\\def\x7bb\x7d\x7d", .addStanza ⟨0⟩ none "\\def",
    Edit.addStandaloneStanza (some ⟨0⟩) (some "b") "\\def\x7bmissing\x7d"].foldl
      Edit.apply (.new {})
  let e : Error :=
    { cause := .definitionNotFound "missing" none
      frames := [.commands ⟨0⟩ none, .commands ⟨2⟩ none, .commands ⟨3⟩ (some "a"),
        .command "footnote", .command "def", .commands ⟨5⟩ (some "b"), .command "def"] }
  have hanswer : (((Call.commands ⟨0⟩).pass 6).answer? c).map (·.1) = some (.error e) := by
    decide +kernel
  obtain ⟨⟨r, c'⟩, hgives, hr⟩ := Option.map_eq_some_iff.1 hanswer
  cases hr
  have hends : (Call.commands ⟨0⟩).Ends c (.error e) c' := ⟨6, hgives⟩
  exact ⟨c, c', e, hends, rfl, rfl, (traced_of_error hends).1⟩

end Rubric
