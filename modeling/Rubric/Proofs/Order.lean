/-
  Rubric — footnotes are in the order of their numbers where notes come last.

  A footnote draws its number when its command is executed, and joins the list
  when the text around it is done.  A text that is handled in between lists its
  footnotes first, though they have the later numbers.

  * `Inline.kinds`: the kinds of the commands in an inline, in the order in which
    they are executed;
  * `CommandKind.NotesLast kinds`: no command that may handle other texts comes
    after a footnote; `Context.NotesLast`: this is so in all texts that are unread;
  * `Rises d held c c'`: what the list of `d` gains on the way from `c` to `c'`
    rises, and the numbers held back come after it;
  * `Outcome`: what the execution of commands of given kinds does to the list;
  * **`numbers_increase`**: where notes come last, the numbers in each list rise.
-/
import Rubric.Proofs.FontFrame
import Rubric.Proofs.Frame
import Rubric.Proofs.Reachable

namespace Rubric

open Context

variable {c c' c₁ c₂ : Context} {d document : Option DocumentId}

/-! ## The order of commands -/

/-- A command of the kind may handle other texts: the one that it inserts, or that of the
    separator. -/
def CommandKind.inserts : CommandKind → Bool
  | definition | lines => true
  | _ => false

namespace Inline

mutual

/-- The kinds of the commands in an inline; those in the parameters of a command come before it. -/
def kinds : Inline → List CommandKind
  | run _ _ => []
  | span inlines _ => kindsList inlines
  | command _ kind parameters _ _ => kindsList parameters ++ [kind]

/-- The kinds of the commands in a list of inlines. -/
def kindsList : List Inline → List CommandKind
  | [] => []
  | inline :: rest => inline.kinds ++ kindsList rest

end

end Inline

/-- No command that may handle other texts comes after a footnote. -/
def CommandKind.NotesLast (kinds : List CommandKind) : Prop :=
  kinds.Pairwise fun kind later => kind = .footnote → later.inserts = false

instance : DecidablePred CommandKind.NotesLast := fun kinds =>
  inferInstanceAs (Decidable (kinds.Pairwise fun kind later =>
    kind = .footnote → later.inserts = false))

namespace Context

/-- In all texts that are unread, no command that may handle other texts comes after a footnote. -/
def NotesLast (c : Context) : Prop :=
  ∀ d ∈ c.definitions, ∀ content ∈ d.kind.contents, ¬ content.IsHandled →
    ∀ inlines ∈ (Markup.parse c.commands content.source).toOption,
      CommandKind.NotesLast (Inline.kindsList inlines)

instance : DecidablePred NotesLast := fun c =>
  inferInstanceAs (Decidable (∀ d ∈ c.definitions, ∀ content ∈ d.kind.contents,
    ¬ content.IsHandled → ∀ inlines ∈ (Markup.parse c.commands content.source).toOption,
      CommandKind.NotesLast (Inline.kindsList inlines)))

namespace NotesLast

variable (h : c.NotesLast)
include h

theorem text {x : DefinitionId} {d : Definition} {content : Content} {l : List Inline}
    (hd : c.definition? x = some d) (hcontent : content ∈ d.kind.contents)
    (hunparsed : content.stage = .unparsed) (hl : Markup.parse c.commands content.source = .ok l) :
    CommandKind.NotesLast (Inline.kindsList l) := by
  refine h d (Array.mem_of_getElem? hd) content hcontent (fun hh => hh hunparsed) l ?_
  rw [hl]; rfl

/-- No text becomes unread. -/
theorem of_texts (hcommands : c'.commands = c.commands)
    (htexts : ∀ {x d'}, c'.definition? x = some d' → ∀ content ∈ d'.kind.contents,
      ¬ content.IsHandled → ∃ d, c.definition? x = some d ∧ content ∈ d.kind.contents) :
    c'.NotesLast := by
  intro d' hd' content hcontent hunread
  obtain ⟨i, hi⟩ := Array.mem_iff_getElem?.1 hd'
  have hx : c'.definition? ⟨i⟩ = some d' := hi
  obtain ⟨d, hd, hmem⟩ := htexts hx content hcontent hunread
  rw [hcommands]
  exact h d (Array.mem_of_getElem? hd) content hmem hunread

theorem of_extends (he : Extends c c') : c'.NotesLast := by
  refine h.of_texts he.commands fun {x d'} hd' content hcontent hunread => ?_
  rcases hd : c.definition? x with _ | d
  · obtain ⟨value, references, rfl⟩ := he.new hd hd'
    cases hcontent
  · obtain ⟨references, kind, hd'', -, hk⟩ := he.old hd
    cases hd'.symm.trans hd''
    obtain ⟨old, hold, hadvances⟩ := hk.exists_content hcontent
    rw [hadvances.eq_of_not_isHandled hunread]
    exact ⟨d, rfl, hold⟩

theorem of_converts (hconverts : Converts c c') : c'.NotesLast := by
  have hcommands := commands_of_unresolved_eq hconverts.written
  refine h.of_texts hcommands fun {x d'} hd' content hcontent hunread => ?_
  obtain ⟨d, kind, hd, rfl, hk⟩ := hconverts.of_definition? hd'
  refine ⟨d, hd, ?_⟩
  cases hk with
  | same => exact hcontent
  | fonts =>
    dsimp only at hcontent
    obtain ⟨⟨source, stage⟩, hold, rfl⟩ := DefinitionKind.mem_contents_mapContents.1 hcontent
    cases stage with
    | unparsed => exact hold
    | commandsResolved | fullyResolved => exact absurd (by nofun) hunread

end NotesLast

end Context

/-! ## Rising numbers -/

/-- On the way from one context to the other the footnote list gains numbers that rise; those that
    are held back come after them, and all are new. -/
structure Rises (d : Option DocumentId) (held : List Nat) (c c' : Context) : Prop where
  hasList : c'.HasList d = c.HasList d
  rises : c.HasList d → c.drawn d ≤ c'.drawn d ∧ ∃ gained, c'.numbers d = c.numbers d ++ gained ∧
    (gained ++ held).Pairwise (· < ·) ∧ ∀ k ∈ gained ++ held, c.drawn d < k ∧ k ≤ c'.drawn d

namespace Rises

variable {held held₁ held₂ : List Nat}

/-- Nothing is listed. -/
theorem of_numbers (hasList : c'.HasList d = c.HasList d) (hnumbers : c'.numbers d = c.numbers d)
    (hdrawn : c.drawn d ≤ c'.drawn d) : Rises d [] c c' where
  hasList := hasList
  rises _ := ⟨hdrawn, [], by simp [hnumbers], by simp, by simp⟩

theorem of_eq (hloose : c'.looseFootnotes = c.looseFootnotes)
    (hdocuments : c'.documents = c.documents) : Rises d [] c c' := by
  have hlist : c'.footnoteList d = c.footnoteList d := footnoteList_of_eq hloose hdocuments
  refine .of_numbers (hasList_of_eq hdocuments) ?_ (Nat.le_of_eq ?_)
  · rw [numbers, footnotes, hlist]; rfl
  · rw [drawn, drawn, hlist]

theorem refl (c : Context) : Rises d [] c c :=
  .of_eq rfl rfl

/-- What was held back stays behind only if nothing else is listed in the meantime. -/
theorem trans (h₁ : Rises d held₁ c c₁) (h₂ : Rises d held₂ c₁ c₂)
    (h : held₁ = [] ∨ c₂.numbers d = c₁.numbers d) : Rises d (held₁ ++ held₂) c c₂ := by
  refine ⟨h₂.hasList.trans h₁.hasList, fun hd => ?_⟩
  obtain ⟨hdrawn₁, gained₁, hnumbers₁, hrises₁, hnew₁⟩ := h₁.rises hd
  obtain ⟨hdrawn₂, gained₂, hnumbers₂, hrises₂, hnew₂⟩ := h₂.rises (h₁.hasList ▸ hd)
  have hall : gained₁ ++ gained₂ ++ (held₁ ++ held₂) =
      (gained₁ ++ held₁) ++ (gained₂ ++ held₂) := by
    rcases h with rfl | h
    · simp
    · obtain rfl := List.self_eq_append_right.1 (h.symm.trans hnumbers₂)
      simp
  refine ⟨Nat.le_trans hdrawn₁ hdrawn₂, gained₁ ++ gained₂, by simp [hnumbers₁, hnumbers₂], ?_, ?_⟩
  · rw [hall, List.pairwise_append]
    refine ⟨hrises₁, hrises₂, fun a ha b hb => ?_⟩
    exact Nat.lt_of_le_of_lt (hnew₁ a ha).2 (hnew₂ b hb).1
  · rw [hall]
    intro k hk
    rcases List.mem_append.1 hk with hk | hk
    · exact ⟨(hnew₁ k hk).1, Nat.le_trans (hnew₁ k hk).2 hdrawn₂⟩
    · exact ⟨Nat.lt_of_le_of_lt hdrawn₁ (hnew₂ k hk).1, (hnew₂ k hk).2⟩

/-- A command draws the next number, and holds it. -/
theorem number (c : Context) (document : Option DocumentId) {note : Footnote}
    (hnote : note.number = (c.modifyFootnotes document fun list =>
      { list with counter := list.counter + 1 }).drawn document) :
    Rises d (Rubric.held d document [note]) c (c.modifyFootnotes document fun list =>
      { list with counter := list.counter + 1 }) := by
  refine ⟨hasList_modifyFootnotes c document _, fun hd => ?_⟩
  have hleaves := LeavesNotes.number c document
  refine ⟨hleaves.drawn d, [], by rw [hleaves.numbers, List.append_nil], ?_⟩
  by_cases he : document = d
  · subst he
    have hdrawn := footnoteList_modifyFootnotes c document
      (fun list => { list with counter := list.counter + 1 }) hd
    rw [if_pos rfl] at hdrawn
    rw [drawn, hdrawn] at hnote
    simp [Rubric.held, hnote, drawn, hdrawn]
  · simp [Rubric.held, he]

/-- What was held back joins the list. -/
theorem route {notes : List Footnote} (h : Rises d (Rubric.held d document notes) c c₁) :
    Rises d [] c (c₁.routeFootnotes document notes) := by
  refine ⟨(hasList_modifyFootnotes c₁ document _).trans h.hasList, fun hd => ?_⟩
  obtain ⟨hdrawn, gained, hnumbers, hrises, hnew⟩ := h.rises hd
  rw [drawn_routeFootnotes, numbers_routeFootnotes (h.hasList ▸ hd), hnumbers, List.append_assoc]
  exact ⟨hdrawn, _, rfl, by rwa [List.append_nil], by rwa [List.append_nil]⟩

end Rises

/-! ## The command pass -/

/-- The context is extended, and where notes come last the list of `d` rises. -/
structure Ranks (d : Option DocumentId) (c c' : Context) : Prop where
  extended : Extends c c'
  rises : c.NotesLast → Rises d [] c c'

theorem Context.Extends.hasList (h : Extends c c') : c'.HasList d = c.HasList d := by
  have hsize : c'.documents.size = c.documents.size := by
    have hmap := congrArg Array.size h.documents
    rwa [Array.size_map, Array.size_map] at hmap
  cases d with
  | none => rfl
  | some document => rw [HasList, HasList, hsize]

namespace Ranks

/-- Nothing is listed. -/
theorem of_leavesNotes (h : Extends c c') (hl : LeavesNotes c c') : Ranks d c c' where
  extended := h
  rises _ := .of_numbers h.hasList (hl.numbers d) (hl.drawn d)

theorem trans (h : Ranks d c c₁) (h' : Ranks d c₁ c₂) : Ranks d c c₂ where
  extended := h.extended.trans h'.extended
  rises hc := (h.rises hc).trans (h'.rises (hc.of_extends h.extended)) (Or.inl rfl)

end Ranks

/-- What any command does to a context lists nothing. -/
theorem permits_ranks (d : Option DocumentId) : Permits (fun _ => True) (Ranks d) :=
  (permits_extends.and permits_leavesNotes).mono
    ⟨fun c => .of_leavesNotes (.refl c) (.refl c), fun h h' => h.trans h'⟩
    fun h => .of_leavesNotes h.1 h.2

/-- What the execution of commands of the given kinds, in a text of `document`, does to the list of
    `d`, and which footnotes it gives. -/
structure Outcome (d document : Option DocumentId) (kinds : List CommandKind) (c : Context)
    (notes : List Footnote) (c' : Context) : Prop where
  extended : Extends c c'
  silent : .footnote ∉ kinds → notes = []
  alone : (∀ kind ∈ kinds, kind.inserts = false) → c'.numbers d = c.numbers d
  rises : c.NotesLast → CommandKind.NotesLast kinds → Rises d (held d document notes) c c'

namespace Outcome

variable {kinds kinds' : List CommandKind} {notes more : List Footnote}

/-- Nothing is listed, and no footnote given. -/
theorem of_leavesNotes (h : Extends c c') (hl : LeavesNotes c c') :
    Outcome d document kinds c [] c' where
  extended := h
  silent _ := rfl
  alone _ := hl.numbers d
  rises hc _ := held_nil ▸ (Ranks.of_leavesNotes h hl).rises hc

/-- A command that gives no footnote, and lists nothing unless it may handle other texts. -/
theorem of_ranks (h : Ranks d c c') {kind : CommandKind}
    (hkind : kind.inserts = false → c'.numbers d = c.numbers d) :
    Outcome d document [kind] c [] c' where
  extended := h.extended
  silent _ := rfl
  alone halone := hkind (halone kind (by simp))
  rises hc _ := held_nil ▸ h.rises hc

/-- **One execution after another.**  If a footnote is held back from the first one, the second
    one lists nothing. -/
theorem append (h : Outcome d document kinds c notes c₁)
    (h' : Outcome d document kinds' c₁ more c₂) :
    Outcome d document (kinds ++ kinds') c (notes ++ more) c₂ where
  extended := h.extended.trans h'.extended
  silent hnone := by
    rw [List.mem_append, not_or] at hnone
    rw [h.silent hnone.1, h'.silent hnone.2, List.append_nil]
  alone halone := by
    rw [h'.alone fun kind hkind => halone kind (List.mem_append_right _ hkind)]
    exact h.alone fun kind hkind => halone kind (List.mem_append_left _ hkind)
  rises hc hkinds := by
    obtain ⟨hfirst, hsecond, hcross⟩ := List.pairwise_append.1 hkinds
    rw [held_append]
    refine (h.rises hc hfirst).trans (h'.rises (hc.of_extends h.extended) hsecond) ?_
    by_cases hnote : .footnote ∈ kinds
    · exact Or.inr (h'.alone fun kind hkind => hcross _ hnote kind hkind rfl)
    · rw [h.silent hnote]
      exact Or.inl held_nil

/-- Commands that are not executed make no difference. -/
theorem mono (h : Outcome d document kinds c notes c') (hkinds : kinds.Sublist kinds') :
    Outcome d document kinds' c notes c' where
  extended := h.extended
  silent hnone := h.silent fun hmem => hnone (hkinds.subset hmem)
  alone halone := h.alone fun kind hkind => halone kind (hkinds.subset hkind)
  rises hc hlast := h.rises hc (List.Pairwise.sublist hkinds hlast)

end Outcome

section
variable {n : Nat} (hh : ∀ id, (Engine.handleCommands n id).Moves (Ranks d))
include hh

/-- A command with executed parameters. -/
theorem outcome_run {call : Invocation} {kind : CommandKind} {ps : List Inline} {effect : Effect}
    (h : (call.run (Engine.handleCommands n) kind ps).Gives c (.ok effect) c') :
    Outcome d call.scope.document [kind] c effect.footnote.toList c' := by
  have hranks : Ranks d c c' := Invocation.run_moves (permits_ranks d) hh call trivial ps _ _ _ h
  cases Invocation.effects_of_run h with
  | definition | value | lines | defaultLines => exact .of_ranks hranks (by rintro ⟨⟩)
  | sharedBoolean => exact .of_ranks hranks fun _ => (LeavesNotes.addReference c _ _).numbers d
  | newBoolean =>
    exact .of_ranks hranks fun _ =>
      ((LeavesNotes.addBoolean c _ _).trans (.addReference _ _ _)).numbers d
  | footnote hc hnumber =>
    subst hc
    exact {
      extended := hranks.extended
      silent := by simp
      alone := fun _ => (LeavesNotes.number c _).numbers d
      rises := fun _ _ => .number c _ hnumber }
  | text => exact .of_ranks hranks fun _ => (permits_leavesNotes.warn c _).numbers d

/-- **Execution and the order of footnotes.** -/
theorem outcome_executeList {scope : Scope} {tags : Tags} {l l' : List Inline}
    {notes : List Footnote}
    (h : (Inline.executeList (Engine.handleCommands n) scope tags l).Gives c (.ok (l', notes)) c') :
    Outcome d scope.document (Inline.kindsList l) c notes c' := by
  have hrules : Inline.ExecutionRules (Engine.handleCommands n) scope
      (fun _ i c _ notes c' => Outcome d scope.document i.kinds c notes c')
      (fun _ l c _ notes c' => Outcome d scope.document (Inline.kindsList l) c notes c') := by
    refine ⟨?run, ?span, ?executed, ?ternary, ?language, ?command, ?nil, ?cons⟩
    case run | executed | nil =>
      intros
      exact .of_leavesNotes (.refl _) (.refl _)
    case span =>
      intro tags l own c l' notes c' h
      exact h
    case ternary =>
      intro _ _ condition yes no _ _ _ _ _ value _ _ _ hcondition _ hbranch
      refine (hcondition.append hbranch).mono ?_
      cases value <;> simp [Inline.kinds, Inline.kindsList]
    case language =>
      intro _ _ tag body _ _ _ _ _ _ _ _ _ htag hbody
      refine (htag.append hbody).mono ?_
      simp [Inline.kinds, Inline.kindsList]
    case command =>
      intro _ _ _ _ _ _ _ _ _ _ _ _ hparameters hrun
      exact hparameters.append (outcome_run hh hrun)
    case cons =>
      intro _ _ _ _ _ _ _ _ _ _ hi hl
      exact hi.append hl
  exact hrules.inlines h

/-- The text of a definition is handled. -/
theorem ranks_resolveContent {id : DefinitionId} {definition : Definition} {content : Content}
    {r : Except Error Unit} (hd : c.definition? id = some definition)
    (hcontent : content ∈ definition.kind.contents)
    (h : (Engine.resolveContent (Engine.handleCommands n) id content).Gives c r c') :
    Ranks d c c' := by
  refine Engine.resolveContent_moves (permits_ranks d) hh hd
    (fun hunparsed hwritten hl hranks =>
      ⟨hranks.extended.handle hd hcontent hunparsed _ _, fun hc => ?_⟩) h
  have hrises := (outcome_executeList hh hl).rises hc (hc.text hd hcontent hunparsed hwritten)
  exact hrises.route.trans (.of_eq rfl rfl) (Or.inl rfl)

end

/-- Where notes come last, the command pass lists footnotes in order. -/
theorem ranks_handleCommands (d : Option DocumentId) (n : Nat) (id : DefinitionId) :
    (Engine.handleCommands n id).Moves (Ranks d) := by
  refine Engine.handleCommands_moves (permits_ranks d).toComposes (fun {c c₁} h => ?leave)
    (fun hd hk hnone _ => ?target)
    (fun _ hh _ _ _ _ _ _ hd hcontent h => ranks_resolveContent hh hd hcontent h) n id
  case leave =>
    refine ⟨h.extended.leave, fun hc => ?_⟩
    have hin : Rises d [] c (c.atDepth (c.depth + 1)) := .of_eq rfl rfl
    have hout : Rises d [] c₁ (c₁.atDepth (c₁.depth - 1)) := .of_eq rfl rfl
    exact hin.trans ((h.rises hc).trans hout (Or.inl rfl)) (Or.inl rfl)
  case target =>
    refine .of_leavesNotes (.setTarget hd hk hnone _) ?_
    exact (LeavesNotes.addReference _ _ _).trans (.setTarget _ _ _)

/-! ## Reachable contexts -/

/-- A call from a context where notes come last lists footnotes in order, and leaves notes last. -/
theorem Call.Ends.rises {call : Call} {r : Except Error Unit} (h : call.Ends c r c')
    (hc : c.NotesLast) : c'.NotesLast ∧ Rises d [] c c' := by
  refine h.moves (R := fun c c' => c.NotesLast → c'.NotesLast ∧ Rises d [] c c')
    ⟨fun c hc => ⟨hc, .refl c⟩, fun h h' hc => ?_⟩ (fun n id c r c' h hc => ?_)
    (fun n id c r c' h hc => ?_) hc
  · obtain ⟨hc₁, hrises⟩ := h hc
    exact ⟨(h' hc₁).1, hrises.trans (h' hc₁).2 (Or.inl rfl)⟩
  · have hranks := ranks_handleCommands d n id c r c' h
    exact ⟨hc.of_extends hranks.extended, hranks.rises hc⟩
  · have hconverts := converts_handleFonts n id c r c' h
    refine ⟨hc.of_converts hconverts, .of_numbers ?_ (hconverts.numbers d) ?_⟩
    · exact (handleFonts_moves d n id c r c' h).hasList
    · exact Nat.le_of_eq (hconverts.drawn d).symm

/-- The numbers in a list rise, up to the last one drawn. -/
def Context.Ascends (d : Option DocumentId) (c : Context) : Prop :=
  (c.numbers d).Pairwise (· < ·) ∧ ∀ k ∈ c.numbers d, k ≤ c.drawn d

theorem Context.Ascends.rises (hc : c.Ascends d) (h : Rises d [] c c') : c'.Ascends d := by
  by_cases hd : c.HasList d
  case neg =>
    have hlist : c'.footnoteList d = {} := footnoteList_of_not_hasList (h.hasList ▸ hd)
    simp [Ascends, numbers, footnotes, hlist]
  obtain ⟨hdrawn, gained, hnumbers, hrises, hnew⟩ := h.rises hd
  rw [List.append_nil] at hrises hnew
  rw [Ascends, hnumbers]
  refine ⟨List.pairwise_append.2 ⟨hc.1, hrises, fun a ha b hb => ?_⟩, fun k hk => ?_⟩
  · exact Nat.lt_of_le_of_lt (hc.2 a ha) (hnew b hb).1
  · rcases List.mem_append.1 hk with hk | hk
    · exact Nat.le_trans (hc.2 k hk) hdrawn
    · exact (hnew k hk).2

/-- **Footnotes are in the order of their numbers where notes come last.**  After any edits,
    whatever definitions they add, and any calls, if at every call no unread text has a command
    behind a footnote that may handle another text, the numbers in each list of footnotes rise. -/
theorem numbers_increase (h : c.Reached (fun _ _ => True) fun c _ _ => c.NotesLast)
    (d : Option DocumentId) : (c.numbers d).Pairwise (· < ·) := by
  suffices hc : c.Ascends d from hc.1
  induction h with
  | new settings =>
    have hnew : (Context.new settings).footnoteList d = {} := by cases d <;> rfl
    simp [Ascends, numbers, footnotes, hnew]
  | @edit c e _ _ ih =>
    simpa only [Ascends, numbers, footnotes, drawn, e.footnoteList_apply] using ih
  | call _ hc hends ih => exact ih.rises (hends.rises hc).2

/-- A stanza inserts another one with a footnote, draws two numbers behind that, and fails: the two
    are lost.  The same stanza without the command that fails goes on from there. -/
theorem numbers_increase_of_failure :
    ∃ c : Context, (c.Reached (fun _ _ => True) fun c _ _ => c.NotesLast) ∧
      c.numbers (some ⟨0⟩) = [1, 4, 5] ∧ (c.numbers (some ⟨0⟩)).Pairwise (· < ·) := by
  let edits := [Edit.addDocument "d" "D", .addVersion ⟨0⟩ (.ofKnown .coptic) none,
    .addStanza ⟨0⟩ (some "a") "\\footnote\x7bx\x7d",
    .addStanza ⟨0⟩ none "\\def\x7ba\x7d\\footnote\x7by\\footnote\x7bz\x7d\x7d\\abv\x7bq\x7d",
    .addStanza ⟨0⟩ none "\\def\x7ba\x7d\\footnote\x7by\\footnote\x7bz\x7d\x7d"]
  let c := (Call.commands ⟨2⟩).run 4 (edits.foldl Edit.apply (.new {}))
  let c' := (Call.commands ⟨3⟩).run 4 c
  have hedits : (edits.foldl Edit.apply (.new {})).Reached (fun _ _ => True)
      fun c _ _ => c.NotesLast :=
    (Reached.new {}).edits (by decide +kernel)
  obtain ⟨e, hfail⟩ : ∃ e, (Call.commands ⟨2⟩).Ends _ (.error e) c :=
    Call.ends_run_error (by decide +kernel)
  have hc : c.Reached (fun _ _ => True) fun c _ _ => c.NotesLast :=
    .call hedits (by decide +kernel) hfail
  have hc' : c'.Reached (fun _ _ => True) fun c _ _ => c.NotesLast :=
    .call hc (by decide +kernel) (Call.ends_run (by decide +kernel))
  exact ⟨c', hc', by decide +kernel, numbers_increase hc' _⟩

/-- **Footnotes need not be in the order of their numbers.**  A stanza inserts another one behind
    a footnote: the footnote of the inserted stanza has the later number, and is listed first. -/
theorem numbers_of_late_insertion :
    ∃ c : Context, c.IsReachable ∧ c.numbers (some ⟨0⟩) = [2, 1] ∧
      ¬ (c.numbers (some ⟨0⟩)).Pairwise (· < ·) := by
  let edits := [Edit.addDocument "d" "D", .addVersion ⟨0⟩ (.ofKnown .coptic) none,
    .addStanza ⟨0⟩ (some "a") "\\footnote\x7bx\x7d",
    .addStanza ⟨0⟩ none "\\footnote\x7by\x7d\\def\x7ba\x7d"]
  let c := (Call.commands ⟨2⟩).run 4 (edits.foldl Edit.apply (.new {}))
  have hedits : (edits.foldl Edit.apply (.new {})).IsReachable :=
    (IsReachable.new {}).edits (by decide +kernel)
  have hc : c.IsReachable := .call hedits (Call.ends_run (by decide +kernel))
  exact ⟨c, hc, by decide +kernel, by decide +kernel⟩

end Rubric
