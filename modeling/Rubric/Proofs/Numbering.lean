/-
  Rubric — footnotes are numbered from one, each with a number of its own.

  A footnote draws its number when its command is executed, but joins the list
  of its document only when the commands of the whole node have succeeded;
  other nodes may draw numbers in between.

  * `Draws d held c c'`: what the footnote list of `d` gains on the way from `c`
    to `c'` and the numbers that are held back make up the numbers drawn;
  * `Engine.Balances`: what is held back when a computation ends is nothing,
    unless it fails;
  * **`footnote_numbers`**: no number of a list is given twice, and none is
    missing unless a call for commands has failed.
-/
import Rubric.Proofs.Moves

namespace Rubric

open Context

variable {c c' c₁ c₂ : Context} {d : Option DocumentId}

/-! ## Footnote lists -/

namespace Context

/-- There is a footnote list for the document, or for no document. -/
def HasList (c : Context) : Option DocumentId → Prop
  | none => True
  | some document => document.index < c.documents.size

/-- Definitions are in documents that there are, or in none. -/
def HasDocuments (c : Context) : Prop :=
  ∀ ⦃x d⦄, c.definition? x = some d → c.HasList d.document

/-- The numbers of the footnotes that have left their place. -/
def numbers (c : Context) (d : Option DocumentId) : List Nat :=
  (c.footnotes d).map Footnote.number

/-- The last number drawn. -/
def drawn (c : Context) (d : Option DocumentId) : Nat :=
  (c.footnoteList d).counter

theorem footnoteList_of_not_hasList (h : ¬ c.HasList d) : c.footnoteList d = {} := by
  rcases d with _ | document
  · exact absurd trivial h
  · have hnone : c.document? document = none := Array.getElem?_eq_none (Nat.le_of_not_lt h)
    simp [footnoteList, hnone]

/-- The footnote lists are those of the documents, and the one for no document. -/
theorem footnoteList_of_eq (hloose : c'.looseFootnotes = c.looseFootnotes)
    (hdocuments : c'.documents = c.documents) : c'.footnoteList d = c.footnoteList d := by
  rcases d with _ | document
  · exact hloose
  · simp only [footnoteList, document?, hdocuments]

theorem hasList_of_eq (hdocuments : c'.documents = c.documents) : c'.HasList d = c.HasList d := by
  rcases d with _ | document
  · rfl
  · simp only [HasList, hdocuments]

/-- If the documents of definitions are there, so is the one that a part is put into. -/
theorem hasList_bind_document (hlists : c.HasDocuments) (parent : DefinitionId) :
    c.HasList ((c.definition? parent).bind Definition.document) := by
  rcases hd : c.definition? parent with _ | d
  · trivial
  · exact hlists hd

theorem footnoteList_modifyFootnotes (c : Context) (document : Option DocumentId)
    (f : FootnoteList → FootnoteList) (h : c.HasList d) :
    (c.modifyFootnotes document f).footnoteList d =
      if document = d then f (c.footnoteList d) else c.footnoteList d := by
  rcases document with _ | i <;> rcases d with _ | j
  · rfl
  · rfl
  · rfl
  · have hj : j.index < c.documents.size := h
    simp only [modifyFootnotes, modifyDocument, footnoteList, document?, Array.getElem?_modify,
      Option.some.injEq]
    by_cases he : i = j
    · subst he
      simp [Array.getElem?_eq_getElem hj]
    · have hindex : i.index ≠ j.index := fun hi => he (by cases i; cases j; exact congrArg _ hi)
      simp [he, hindex]

theorem hasList_modifyFootnotes (c : Context) (document : Option DocumentId)
    (f : FootnoteList → FootnoteList) : (c.modifyFootnotes document f).HasList d = c.HasList d := by
  rcases document with _ | i <;> rcases d with _ | j <;>
    simp [HasList, modifyFootnotes, modifyDocument]

/-- A change of a footnote list, seen from any list. -/
theorem footnoteList_modifyFootnotes_cases (c : Context) (document : Option DocumentId)
    (f : FootnoteList → FootnoteList) (d : Option DocumentId) :
    (c.modifyFootnotes document f).footnoteList d = c.footnoteList d ∨
      document = d ∧ (c.modifyFootnotes document f).footnoteList d = f (c.footnoteList d) := by
  by_cases hd : c.HasList d
  · rw [footnoteList_modifyFootnotes c document f hd]
    split
    · exact Or.inr ⟨‹_›, rfl⟩
    · exact Or.inl rfl
  · have hd' : ¬ (c.modifyFootnotes document f).HasList d := by
      rwa [hasList_modifyFootnotes]
    rw [footnoteList_of_not_hasList hd, footnoteList_of_not_hasList hd']
    exact Or.inl rfl

end Context

/-! ## Drawing numbers -/

/-- On the way from one context to the other, the footnote list has gained some numbers, and
    with those that are held back they are the numbers drawn. -/
structure Draws (d : Option DocumentId) (held : List Nat) (c c' : Context) : Prop where
  hasList : c'.HasList d = c.HasList d
  drawn : c.HasList d → ∃ n gained, c'.drawn d = c.drawn d + n ∧
    c'.numbers d = c.numbers d ++ gained ∧
    (gained ++ held).Perm (List.range' (c.drawn d + 1) n)

namespace Draws

variable {held held₁ held₂ : List Nat}

/-- Nothing is drawn where the footnote lists stay. -/
theorem of_footnoteList (hlist : c'.HasList d = c.HasList d)
    (h : c.HasList d → c'.numbers d = c.numbers d ∧ c'.drawn d = c.drawn d) :
    Draws d [] c c' where
  hasList := hlist
  drawn hd := by
    obtain ⟨hnumbers, hdrawn⟩ := h hd
    exact ⟨0, [], by simp [hdrawn], by simp [hnumbers], by simp⟩

theorem of_eq (hloose : c'.looseFootnotes = c.looseFootnotes)
    (hdocuments : c'.documents = c.documents) : Draws d [] c c' := by
  have hlist : c'.footnoteList d = c.footnoteList d := footnoteList_of_eq hloose hdocuments
  exact .of_footnoteList (hasList_of_eq hdocuments) fun _ => by
    simp [numbers, footnotes, Context.drawn, hlist]

theorem refl (c : Context) : Draws d [] c c :=
  .of_eq rfl rfl

theorem trans (h₁ : Draws d held₁ c c₁) (h₂ : Draws d held₂ c₁ c₂) :
    Draws d (held₁ ++ held₂) c c₂ := by
  refine ⟨h₂.hasList.trans h₁.hasList, fun hd => ?_⟩
  obtain ⟨n, gained₁, hdrawn₁, hnumbers₁, hperm₁⟩ := h₁.drawn hd
  obtain ⟨m, gained₂, hdrawn₂, hnumbers₂, hperm₂⟩ := h₂.drawn (h₁.hasList ▸ hd)
  refine ⟨n + m, gained₁ ++ gained₂, by omega, by simp [hnumbers₁, hnumbers₂], ?_⟩
  have hrange : List.range' (c.drawn d + 1) n ++ List.range' (c₁.drawn d + 1) m =
      List.range' (c.drawn d + 1) (n + m) := by
    rw [hdrawn₁, Nat.add_right_comm, List.range'_append_1]
  have hall : ((gained₁ ++ held₁) ++ (gained₂ ++ held₂)).Perm
      (List.range' (c.drawn d + 1) (n + m)) := hrange ▸ hperm₁.append hperm₂
  refine List.Perm.trans ?_ hall
  rw [List.perm_iff_count]
  intro a
  simp only [List.count_append]
  omega

/-- What was held back joins the list. -/
theorem release (h : Draws d held c c₁) (hlist : c₂.HasList d = c₁.HasList d)
    (hnext : c₁.HasList d →
      c₂.numbers d = c₁.numbers d ++ held ∧ c₂.drawn d = c₁.drawn d) : Draws d [] c c₂ := by
  refine ⟨hlist.trans h.hasList, fun hd => ?_⟩
  obtain ⟨n, gained, hdrawn₁, hnumbers₁, hperm⟩ := h.drawn hd
  obtain ⟨hnumbers, hdrawn⟩ := hnext (h.hasList ▸ hd)
  have hgained : c₂.numbers d = c.numbers d ++ (gained ++ held) := by
    rw [hnumbers, hnumbers₁, List.append_assoc]
  exact ⟨n, gained ++ held, hdrawn.trans hdrawn₁, hgained, by simpa using hperm⟩

/-- A command draws the next number, and holds it. -/
theorem number (c : Context) (document : Option DocumentId) :
    let c' := c.modifyFootnotes document fun list => { list with counter := list.counter + 1 }
    Draws d (if document = d then [c'.drawn document] else []) c c' := by
  intro c'
  refine ⟨hasList_modifyFootnotes c document _, fun hd => ?_⟩
  have hlist := footnoteList_modifyFootnotes c document
    (fun list => { list with counter := list.counter + 1 }) hd
  by_cases he : document = d
  · subst he
    rw [if_pos rfl] at hlist ⊢
    exact ⟨1, [], by simp [c', Context.drawn, hlist], by simp [c', numbers, footnotes, hlist],
      by simp [c', Context.drawn, hlist]⟩
  · rw [if_neg he] at hlist ⊢
    exact ⟨0, [], by simp [c', Context.drawn, hlist], by simp [c', numbers, footnotes, hlist],
      by simp⟩

/-- A new global boolean draws nothing. -/
theorem addBoolean (c : Context) (key : String) (value : Bool) :
    Draws d [] c (c.addBoolean none key value).2 := by
  obtain ⟨warnings, hmade⟩ := c.exists_addBoolean key value
  rw [hmade]
  exact .of_eq rfl rfl

end Draws

theorem composes_draws (d : Option DocumentId) : Engine.Composes (Draws d []) where
  refl := .refl
  trans h₁ h₂ := h₁.trans h₂

/-- Numbers are drawn, of which some may be held back. -/
def Advances (d : Option DocumentId) (c c' : Context) : Prop :=
  ∃ held, Draws d held c c'

/-- What any command does to a context draws numbers at most. -/
theorem permits_advances (d : Option DocumentId) : Permits (fun _ => True) (Advances d) where
  refl c := ⟨[], .refl c⟩
  trans := by
    rintro c₁ c₂ c₃ ⟨held₁, h₁⟩ ⟨held₂, h₂⟩
    exact ⟨held₁ ++ held₂, h₁.trans h₂⟩
  warn c warnings := ⟨[], .of_eq rfl rfl⟩
  reference c definition user := ⟨[], .of_eq rfl rfl⟩
  number _ c document := ⟨_, .number c document⟩
  boolean _ c value := ⟨[], .addBoolean c _ value⟩

/-! ## Executing commands -/

/-- The numbers that the footnotes of a node in `document` hold back from the list of `d`. -/
def held (d document : Option DocumentId) (notes : List Footnote) : List Nat :=
  if document = d then notes.map Footnote.number else []

theorem held_nil {document : Option DocumentId} : held d document [] = [] := by
  simp [held]

theorem held_append {document : Option DocumentId} (notes more : List Footnote) :
    held d document (notes ++ more) = held d document notes ++ held d document more := by
  by_cases h : document = d <;> simp [held, h]

theorem numbers_routeFootnotes (h : c.HasList d) (document : Option DocumentId)
    (notes : List Footnote) :
    (c.routeFootnotes document notes).numbers d = c.numbers d ++ held d document notes := by
  have hlist : (c.routeFootnotes document notes).footnoteList d = _ :=
    footnoteList_modifyFootnotes c document _ h
  by_cases he : document = d
  · subst he
    simp [numbers, footnotes, hlist, held]
  · simp [numbers, footnotes, hlist, held, he]

theorem drawn_routeFootnotes (c : Context) (document : Option DocumentId) (notes : List Footnote)
    (d : Option DocumentId) : (c.routeFootnotes document notes).drawn d = c.drawn d := by
  rcases footnoteList_modifyFootnotes_cases c document _ d with h | ⟨-, h⟩ <;>
    rw [drawn, routeFootnotes, h] <;> rfl

/-- Footnotes that join their list hold nothing back any more. -/
theorem draws_routeFootnotes {document : Option DocumentId} {notes : List Footnote}
    (h : Draws d (held d document notes) c c₁) :
    Draws d [] c (c₁.routeFootnotes document notes) :=
  h.release (hasList_modifyFootnotes c₁ document _) fun hd =>
    ⟨numbers_routeFootnotes hd document notes, drawn_routeFootnotes c₁ document notes d⟩

/-! ## Balanced computations -/

namespace Engine

variable {α β : Type}

/-- The computation holds no number back unless it fails. -/
def Balances (d : Option DocumentId) (x : Engine α) : Prop :=
  ∀ c r c', x.Gives c r c' → Advances d c c' ∧ ∀ a, r = .ok a → Draws d [] c c'

namespace Balances

theorem of_moves {x : Engine α} (h : x.Moves (Draws d [])) : x.Balances d := by
  intro c r c' hx
  have hdraws := h c r c' hx
  exact ⟨⟨[], hdraws⟩, fun _ _ => hdraws⟩

theorem bind {x : Engine α} {f : α → Engine β} (hx : x.Balances d) (hf : ∀ a, (f a).Balances d) :
    (x >>= f).Balances d := by
  intro c r c' h
  rcases gives_bind.1 h with ⟨a, c₁, h₁, h₂⟩ | ⟨e, h₁, rfl⟩
  · obtain ⟨hadvances₁, hdraws₁⟩ := hx _ _ _ h₁
    obtain ⟨hadvances₂, hdraws₂⟩ := hf a _ _ _ h₂
    exact ⟨(permits_advances d).trans hadvances₁ hadvances₂,
      fun b hb => (hdraws₁ a rfl).trans (hdraws₂ b hb)⟩
  · exact ⟨(hx _ _ _ h₁).1, by simp⟩

theorem runAll {xs : List (Engine Unit)} (h : ∀ x ∈ xs, x.Balances d) : (runAll xs).Balances d := by
  induction xs with
  | nil => exact of_moves (.pure (composes_draws d) ())
  | cons x xs ih =>
    intro c r c' hx
    obtain ⟨r₁, c₁, r₂, h₁, h₂, rfl⟩ := gives_runAll_cons.1 hx
    obtain ⟨hadvances₁, hdraws₁⟩ := h x (by simp) _ _ _ h₁
    obtain ⟨hadvances₂, hdraws₂⟩ := ih (fun y hy => h y (by simp [hy])) _ _ _ h₂
    refine ⟨(permits_advances d).trans hadvances₁ hadvances₂, fun _ hr => ?_⟩
    obtain ⟨rfl, rfl⟩ := firstError_eq_ok.1 hr
    exact (hdraws₁ () rfl).trans (hdraws₂ () rfl)

theorem nested {frame : Frame} {x : Engine Unit} (hx : x.Balances d) :
    (nested frame x).Balances d := by
  intro c r c' h
  rcases gives_nested h with ⟨limit, -, -, rfl, rfl⟩ | ⟨r₁, c₁, h₁, rfl, rfl⟩
  · exact ⟨⟨[], .refl _⟩, by simp⟩
  · have hin : Draws d [] c (c.atDepth (c.depth + 1)) := .of_eq rfl rfl
    have hout : Draws d [] c₁ (c₁.atDepth (c₁.depth - 1)) := .of_eq rfl rfl
    obtain ⟨⟨held, hheld⟩, hdraws⟩ := hx _ _ _ h₁
    refine ⟨⟨_, hin.trans (hheld.trans hout)⟩, fun a ha => ?_⟩
    exact hin.trans ((hdraws a (mapError_eq_ok.1 ha)).trans hout)

end Balances

end Engine

section
variable {handle : DefinitionId → Engine Unit} (hh : ∀ id, (handle id).Balances d)
include hh

/-- A command holds back the number of its own footnote, and no other. -/
theorem draws_effects {call : Invocation} {kind : CommandKind} {ps : List Inline} {effect : Effect}
    (h : Invocation.Effects handle call c kind ps effect c') :
    Draws d (held d call.scope.document effect.footnote.toList) c c' := by
  have huse : ∀ (c : Context) target, Draws d [] c (c.addReference target call.scope.owner) :=
    fun c target => .of_eq rfl rfl
  have hhandle : ∀ {c target c'},
      (handle target).Gives (c.addReference target call.scope.owner) (.ok ()) c' →
        Draws d [] c c' := by
    intro c target c' h
    exact (huse c target).trans ((hh target _ _ _ h).2 () rfl)
  have hseparates : ∀ {separator}, Invocation.Separates handle call c separator c' →
      Draws d [] c c' := by
    intro separator h
    cases h with
    | settings => exact .refl c
    | selected => exact huse c _
    | definition _ _ _ hgives _ => exact (hhandle hgives).trans (.of_eq rfl rfl)
  cases h with
  | definition _ _ _ _ h => exact held_nil ▸ hhandle h
  | value | sharedBoolean => exact held_nil ▸ huse c _
  | newBoolean => exact held_nil ▸ (Draws.addBoolean c _ _).trans (huse _ _)
  | lines => exact held_nil ▸ Draws.refl c
  | defaultLines _ _ h => exact held_nil ▸ hseparates h
  | footnote hc hnumber =>
    subst hc hnumber
    exact .number c call.scope.document
  | text => exact held_nil ▸ Draws.of_eq rfl rfl

/-- **Execution holds back the numbers of the footnotes that it gives.** -/
theorem draws_executeList {scope : Scope} {tags : Tags} {l l' : List Inline}
    {notes : List Footnote}
    (h : (Inline.executeList handle scope tags l).Gives c (.ok (l', notes)) c') :
    Draws d (held d scope.document notes) c c' := by
  have hrules : Inline.ExecutionRules handle scope
      (fun _ _ c _ notes c' => Draws d (held d scope.document notes) c c')
      (fun _ _ c _ notes c' => Draws d (held d scope.document notes) c c') := by
    refine ⟨?run, ?span, ?executed, ?ternary, ?language, ?command, ?nil, ?cons⟩
    case run | executed | nil =>
      intros
      exact held_nil ▸ Draws.refl _
    case span =>
      intro tags l own c l' notes c' h
      exact h
    case ternary =>
      intro _ _ _ _ _ _ _ _ _ _ _ _ _ _ hcondition _ hbranch
      exact held_append _ _ ▸ hcondition.trans hbranch
    case language =>
      intro _ _ _ _ _ _ _ _ _ _ _ _ _ htag hbody
      exact held_append _ _ ▸ htag.trans hbody
    case command =>
      intro _ _ _ _ _ _ _ _ _ _ _ _ hparameters hrun
      exact held_append _ _ ▸ hparameters.trans (draws_effects hh (Invocation.effects_of_run hrun))
    case cons =>
      intro _ _ _ _ _ _ _ _ _ _ hi hl
      exact held_append _ _ ▸ hi.trans hl
  exact hrules.inlines h

/-! ## The passes -/

/-- Reading a source and executing its commands holds no number back unless it fails. -/
theorem balances_resolveSource (owner : DefinitionId) (source : String) :
    (Engine.resolveSource handle owner source).Balances d := by
  have hR := composes_draws d
  refine .bind (.of_moves (.get hR)) fun c => .bind (.of_moves (.ofExcept hR _)) fun l => ?_
  refine .bind (.of_moves (.ofOption hR _)) fun tags => ?_
  refine .bind (.of_moves (.definition hR owner)) fun definition => ?_
  intro c r c' h
  rcases Engine.gives_bind.1 h with ⟨⟨l', notes⟩, c₁, hl, h⟩ | ⟨e, hl, rfl⟩
  · rw [Engine.gives_modify_bind] at h
    obtain ⟨rfl, rfl⟩ := Engine.gives_pure.1 h
    have hroute := draws_routeFootnotes (draws_executeList hh hl)
    exact ⟨⟨[], hroute⟩, fun _ _ => hroute⟩
  · refine ⟨?_, by simp⟩
    exact Inline.executeList_moves (permits_advances d) (fun id c r c' h => (hh id c r c' h).1) l
      (fun i _ => Inline.uses_all) tags _ _ _ hl

theorem balances_resolveContent (id : DefinitionId) (content : Content) :
    (Engine.resolveContent handle id content).Balances d := by
  unfold Engine.resolveContent
  split
  · refine .bind (balances_resolveSource hh id content.source) fun l => ?_
    exact .of_moves (.modify fun c => .of_eq rfl rfl)
  all_goals exact .of_moves (.pure (composes_draws d) ())

/-- The command pass of a node holds no number back unless it fails. -/
theorem balances_commandPass (id : DefinitionId) : (Engine.commandPass handle id).Balances d := by
  have hR := composes_draws d
  refine .bind (.of_moves (.definition hR id)) fun definition => ?_
  split
  · exact balances_resolveContent hh id _
  · exact balances_resolveContent hh id _
  · refine .runAll fun x hx => ?_
    rcases List.mem_append.1 hx with hx | hx
    · obtain ⟨title, -, rfl⟩ := List.mem_map.1 hx
      exact balances_resolveContent hh id title
    · obtain ⟨child, -, rfl⟩ := List.mem_map.1 hx
      exact hh child
  · split
    · exact hh _
    · refine .bind (.of_moves (.get hR)) fun c => ?_
      refine .bind (.of_moves (.definition hR id)) fun definition => ?_
      refine .bind (.of_moves (.ofExcept hR _)) fun target => ?_
      exact .bind (.of_moves (.modify fun c => .of_eq rfl rfl)) fun _ => hh target
  all_goals exact .of_moves (.pure hR ())

end

/-- **The command pass holds no number back unless it fails.** -/
theorem balances_handleCommands (d : Option DocumentId) (n : Nat) (id : DefinitionId) :
    (Engine.handleCommands n id).Balances d := by
  induction n generalizing id with
  | zero =>
    intro c r c' h
    exact (Engine.gives_endless.1 h).elim
  | succ n ih =>
    rw [Engine.handleCommands]
    refine .bind (.of_moves (.definition (composes_draws d) id)) fun definition => ?_
    exact .nested (balances_commandPass ih id)

/-- Converted footnotes keep their numbers. -/
theorem numbers_replaceFootnote (note : Footnote) (routed : List Footnote) :
    (replaceFootnote note routed).map Footnote.number = routed.map Footnote.number := by
  induction routed with
  | nil => rfl
  | cons old rest ih =>
    by_cases h : old.number = note.number
    · simp [replaceFootnote, h]
    · simp [replaceFootnote, h, ih]

theorem numbers_rerouteFootnotes (c : Context) (document : Option DocumentId)
    (notes : List Footnote) (d : Option DocumentId) :
    (c.rerouteFootnotes document notes).numbers d = c.numbers d := by
  have hfold : ∀ routed : List Footnote,
      (notes.foldl (fun routed note => replaceFootnote note routed) routed).map Footnote.number =
        routed.map Footnote.number := by
    induction notes with
    | nil => exact fun _ => rfl
    | cons note notes ih => exact fun routed => (ih _).trans (numbers_replaceFootnote note routed)
  rcases footnoteList_modifyFootnotes_cases c document _ d with h | ⟨-, h⟩ <;>
    rw [numbers, footnotes, rerouteFootnotes, h]
  · rfl
  · exact hfold _

theorem drawn_rerouteFootnotes (c : Context) (document : Option DocumentId)
    (notes : List Footnote) (d : Option DocumentId) :
    (c.rerouteFootnotes document notes).drawn d = c.drawn d := by
  rcases footnoteList_modifyFootnotes_cases c document _ d with h | ⟨-, h⟩ <;>
    rw [drawn, rerouteFootnotes, h] <;> rfl

/-- **The font pass draws no numbers, and keeps those of all footnotes.** -/
theorem handleFonts_moves (d : Option DocumentId) (n : Nat) (id : DefinitionId) :
    (Engine.handleFonts n id).Moves (Draws d []) := by
  have hdepth : ∀ (c : Context) depth, Draws d [] c (c.atDepth depth) := fun _ _ => .of_eq rfl rfl
  refine Engine.handleFonts_moves (composes_draws d) (fun h => ?_) (fun _ _ _ h hconvert => ?_) n id
  · exact (hdepth _ _).trans (h.trans (hdepth _ _))
  · obtain ⟨tags, definition, warnings, -, -, -, rfl⟩ := Engine.gives_convertContent hconvert
    have hchange : ∀ (c : Context) id (f : Definition → Definition),
        Draws d [] c ((c.warnAll warnings).modifyDefinition id f) := fun _ _ _ => .of_eq rfl rfl
    refine (h.trans (hchange _ _ _)).trans (.of_footnoteList (hasList_modifyFootnotes _ _ _) ?_)
    exact fun _ => ⟨numbers_rerouteFootnotes _ _ _ d, drawn_rerouteFootnotes _ _ _ d⟩

/-- A call holds numbers back only if it is one for commands and fails. -/
theorem Call.Ends.draws {call : Call} {r : Except Error Unit} (h : call.Ends c r c') :
    Advances d c c' ∧ ((∀ e, r = .error e → ∃ id, call = .fonts id) → Draws d [] c c') := by
  obtain ⟨n, h⟩ := h
  suffices hcall : (∃ id, call = .fonts id) ∧ Draws d [] c c' ∨ (call.pass n).Balances d by
    rcases hcall with ⟨-, hdraws⟩ | hbalances
    · exact ⟨⟨[], hdraws⟩, fun _ => hdraws⟩
    · obtain ⟨hadvances, hdraws⟩ := hbalances _ _ _ h
      refine ⟨hadvances, fun hfail => ?_⟩
      rcases r with e | ⟨⟨⟩⟩
      · obtain ⟨id, rfl⟩ := hfail e rfl
        exact handleFonts_moves d n id _ _ _ h
      · exact hdraws () rfl
  cases call with
  | commands id => exact Or.inr (balances_handleCommands d n id)
  | fonts id => exact Or.inl ⟨⟨id, rfl⟩, handleFonts_moves d n id _ _ _ h⟩
  | document id =>
    have hR := composes_draws d
    refine Or.inr (.bind (.of_moves (.get hR)) fun c => ?_)
    refine .bind (.of_moves (.ofOption hR _)) fun document => .runAll fun x hx => ?_
    obtain ⟨version, -, rfl⟩ := List.mem_map.1 hx
    exact .bind (balances_handleCommands d n version.root) fun _ =>
      .of_moves (handleFonts_moves d n version.root)

/-! ## Edits -/

namespace Context

/-- A change of a document that leaves its footnotes. -/
theorem footnoteList_modifyDocument (c : Context) (document : DocumentId) {f : Document → Document}
    (hf : ∀ document, (f document).footnotes = document.footnotes) (d : Option DocumentId) :
    (c.modifyDocument document f).footnoteList d = c.footnoteList d := by
  rcases d with _ | i
  · rfl
  · simp only [modifyDocument, footnoteList, document?, Array.getElem?_modify]
    by_cases he : document.index = i.index
    · rw [if_pos he, Option.map_map]
      congr 2
      exact funext hf
    · rw [if_neg he]

theorem footnoteList_addDefinition (c : Context) (definition : Definition)
    (document : Option DocumentId) (d : Option DocumentId) :
    (c.addDefinition definition document).2.footnoteList d = c.footnoteList d := by
  have hregister : ∀ key id, (c.registerKey document key id).footnoteList d = c.footnoteList d := by
    intro key id
    unfold registerKey
    rcases document with _ | document
    · refine footnoteList_of_eq ?_ ?_ <;> cases (c.keysOf none).get? key <;> rfl
    · refine (footnoteList_modifyDocument _ document ?_ d).trans (footnoteList_of_eq ?_ ?_)
      · exact fun _ => rfl
      all_goals cases (c.keysOf (some document)).get? key <;> rfl
  unfold addDefinition
  rcases definition.key with _ | key
  · cases d <;> rfl
  · refine Eq.trans ?_ (hregister key ⟨c.definitions.size⟩)
    cases d <;> rfl

theorem footnoteList_addChild (c : Context) (parent : DefinitionId) (key : Option String)
    (kind : DefinitionKind) (d : Option DocumentId) :
    (c.addChild parent key kind).2.footnoteList d = c.footnoteList d := by
  have hadd := c.footnoteList_addDefinition { key, parent := some parent, kind }
    ((c.definition? parent).bind Definition.document) d
  unfold addChild
  dsimp only
  refine Eq.trans ?_ hadd
  split <;> cases d <;> rfl

end Context

/-- Edits leave all footnotes as they are. -/
theorem Edit.footnoteList_apply (e : Edit) (c : Context) (d : Option DocumentId) :
    (e.apply c).footnoteList d = c.footnoteList d := by
  cases e with
  | addDocument key name =>
    rcases d with _ | i
    · rfl
    · simp only [apply, Context.addDocument, footnoteList, Context.document?, Array.getElem?_push]
      by_cases he : i.index = c.documents.size
      · simp [he]
      · simp [he]
  | setAuthor document author =>
    refine footnoteList_modifyDocument c document ?_ d
    exact fun _ => rfl
  | addVersion document language font =>
    have hadd := c.footnoteList_addDefinition
      { language := some language, font, kind := .section {} } (some document) d
    refine (footnoteList_modifyDocument _ document ?_ d).trans hadd
    exact fun _ => rfl
  | addSection | addStanza | addParagraph | addPartReference =>
    exact footnoteList_addChild c _ _ _ d
  | addDefinition definition document => exact footnoteList_addDefinition c definition document d
  | setSourceText id source =>
    simp only [apply, Context.setSourceText]
    split <;> cases d <;> rfl
  | setLanguage | setFont | addReference | setCommands | setFonts | registerAnalyzer
  | setSettings =>
    cases d <;> rfl

/-! ## Numbers -/

/-- The numbers of a list and the numbers that failed calls have lost are those from one to the
    last one drawn. -/
theorem Context.Reached.numbers {E : Context → Edit → Prop}
    {P : Context → Call → Except Error Unit → Prop} (h : c.Reached E P) (d : Option DocumentId) :
    ∃ lost, (c.numbers d ++ lost).Perm (List.range' 1 (c.drawn d)) ∧
      ((∀ c call e, P c call (.error e) → ∃ id, call = .fonts id) → lost = []) := by
  induction h with
  | new settings =>
    have hnew : (Context.new settings).footnoteList d = {} := by cases d <;> rfl
    exact ⟨[], by simp [Context.numbers, footnotes, drawn, hnew], fun _ => rfl⟩
  | @edit c e _ _ ih =>
    simpa only [Context.numbers, footnotes, drawn, e.footnoteList_apply] using ih
  | @call c c' call r _ hP hends ih =>
    obtain ⟨lost, hperm, hlost⟩ := ih
    obtain ⟨⟨held, hheld⟩, hdraws⟩ := hends.draws (d := d)
    by_cases hd : c.HasList d
    case neg =>
      have hlist : c'.footnoteList d = {} :=
        footnoteList_of_not_hasList (hheld.hasList ▸ hd)
      exact ⟨[], by simp [Context.numbers, footnotes, drawn, hlist], fun _ => rfl⟩
    -- what one call draws follows on what was drawn before
    have hnext : ∀ {held}, Draws d held c c' →
        (c'.numbers d ++ (lost ++ held)).Perm (List.range' 1 (c'.drawn d)) := by
      intro held hheld
      obtain ⟨n, gained, hdrawn, hnumbers, hgained⟩ := hheld.drawn hd
      have hrange : List.range' 1 (c.drawn d) ++ List.range' (c.drawn d + 1) n =
          List.range' 1 (c'.drawn d) := by
        rw [hdrawn, Nat.add_comm (c.drawn d) 1, List.range'_append_1]
      refine List.Perm.trans ?_ (hrange ▸ hperm.append hgained)
      rw [hnumbers, List.perm_iff_count]
      intro a
      simp only [List.count_append]
      omega
    by_cases hfail : ∀ e, r = .error e → ∃ id, call = .fonts id
    · refine ⟨lost ++ [], hnext (hdraws hfail), fun hall => ?_⟩
      rw [List.append_nil]
      exact hlost hall
    · refine ⟨lost ++ held, hnext hheld, fun hall => absurd ?_ hfail⟩
      rintro e rfl
      exact hall c call e hP

/-- **No footnote number is given twice, and none is missing.**  After any edits, whatever
    definitions they add, and any calls, in the list of each document and in that of no document,
    the numbers of the footnotes are all different and lie between one and the last one drawn; if
    no call for commands, of a definition or of a document, may fail, they are all of these, each
    once.  (They have 32 bits: fewer than `2 ^ 32` are drawn.) -/
theorem footnote_numbers {P : Context → Call → Except Error Unit → Prop}
    (h : c.Reached (fun _ _ => True) P) (d : Option DocumentId) :
    (c.numbers d).Nodup ∧ (∀ k ∈ c.numbers d, 1 ≤ k ∧ k ≤ c.drawn d) ∧
      ((∀ c call e, P c call (.error e) → ∃ id, call = .fonts id) →
        (c.numbers d).Perm (List.range' 1 (c.drawn d))) := by
  obtain ⟨lost, hperm, hlost⟩ := h.numbers d
  have hnodup : (c.numbers d ++ lost).Nodup := hperm.nodup_iff.2 List.nodup_range'
  refine ⟨(List.nodup_append.1 hnodup).1, fun k hk => ?_, fun hall => ?_⟩
  · have hmem : k ∈ List.range' 1 (c.drawn d) := hperm.mem_iff.1 (List.mem_append_left _ hk)
    rw [List.mem_range'_1] at hmem
    omega
  · obtain rfl := hlost hall
    simpa using hperm

/-- A stanza with a footnote inserts another one with two: the notes of the inserted stanza draw
    the later numbers, and join the list first. -/
theorem footnote_numbers_of_insertion :
    ∃ c : Context, c.Reached (fun _ _ => True) (fun _ _ r => r = .ok ()) ∧
      c.numbers (some ⟨0⟩) = [2, 3, 1] ∧ (c.numbers (some ⟨0⟩)).Nodup ∧
      (c.numbers (some ⟨0⟩)).Perm (List.range' 1 (c.drawn (some ⟨0⟩))) := by
  let edits := [Edit.addDocument "d" "D", .addVersion ⟨0⟩ (.ofKnown .coptic) none,
    .addStanza ⟨0⟩ (some "a") "\\footnote\x7bx\x7d\\footnote\x7by\x7d",
    .addStanza ⟨0⟩ none "\\footnote\x7bz\x7d\\def\x7ba\x7d"]
  let c := (Call.commands ⟨2⟩).run 4 (edits.foldl Edit.apply (.new {}))
  have hedits : (edits.foldl Edit.apply (.new {})).Reached (fun _ _ => True)
      (fun _ _ r => r = .ok ()) := (Reached.new {}).edits (by decide +kernel)
  have h : c.Reached (fun _ _ => True) (fun _ _ r => r = .ok ()) :=
    .call hedits rfl (Call.ends_run (by decide +kernel))
  obtain ⟨hnodup, -, hall⟩ := footnote_numbers h (some ⟨0⟩)
  exact ⟨c, h, by decide +kernel, hnodup, hall (by rintro _ _ _ ⟨⟩)⟩

end Rubric
