/-
  Rubric — the footnotes in a text are those in the list of its document.

  The body of a footnote is kept in many places: in the list of its document,
  and wherever the command that made it stands in the text.  The font pass
  converts each of them where it finds it.

  * `DefinitionKind.notes`: the footnotes in the texts of a definition;
  * `Context.IsNoted`: each of them is in the list of the definition's document,
    under a number that no other definition has in its texts;
  * `Context.IsNoted.handle`, `Context.IsNoted.convert`: this stays so when a text is
    handled or converted, the two steps that touch footnotes;
  * **`footnotes_agree`**: in the list of a document there is one footnote under the
    number of a footnote in a text, and the two are equal.
-/
import Rubric.Proofs.FontFrame
import Rubric.Proofs.Frame
import Rubric.Proofs.Notes
import Rubric.Proofs.Reachable

namespace Rubric

open Context

variable {c c' : Context} {id x : DefinitionId}

/-! ## Footnotes of definitions -/

/-- The footnotes in the texts of a definition. -/
def DefinitionKind.notes (kind : DefinitionKind) : List Footnote :=
  kind.contents.flatMap fun content => Inline.footnotes content.inlines

theorem DefinitionKind.mem_notes {kind : DefinitionKind} {note : Footnote} :
    note ∈ kind.notes ↔ ∃ content ∈ kind.contents, note ∈ Inline.footnotes content.inlines :=
  List.mem_flatMap

/-- The footnotes of a definition with a handled text. -/
theorem DefinitionKind.notes_of_mem {kind : DefinitionKind} {content : Content} {l : List Inline}
    (hcontent : content ∈ kind.contents) (hstage : content.stage = .commandsResolved l) :
    kind.notes = Inline.footnotes l := by
  have hinlines : content.inlines = l := by rw [Content.inlines, hstage]
  rw [notes, contents_eq_of_mem hcontent, List.flatMap_singleton, hinlines]

theorem Content.footnotes_of_unparsed {content : Content} (h : content.stage = .unparsed) :
    Inline.footnotes content.inlines = [] := by
  rw [Content.inlines, h]
  exact Inline.footnotes_run _ _

/-- Unread texts have no footnotes. -/
theorem DefinitionKind.notes_of_unparsed {kind : DefinitionKind}
    (h : ∀ content ∈ kind.contents, content.stage = .unparsed) : kind.notes = [] := by
  rw [notes, List.flatMap_eq_nil_iff]
  exact fun content hcontent => Content.footnotes_of_unparsed (h content hcontent)

namespace Context

/-- Every footnote in a text is in the list of the document, and the texts of different
    definitions have different footnotes.  What is not converted yet converts footnotes alike
    wherever they stand. -/
structure IsNoted (c : Context) : Prop where
  lists : c.HasDocuments
  nodup : ∀ d, (c.numbers d).Nodup
  drawn : ∀ d, ∀ k ∈ c.numbers d, k ≤ c.drawn d
  listed : ∀ {x d}, c.definition? x = some d → ∀ note ∈ d.kind.notes, note ∈ c.footnotes d.document
  apart : ∀ {x y d d'}, c.definition? x = some d → c.definition? y = some d' →
    d.document = d'.document → ∀ note ∈ d.kind.notes, ∀ note' ∈ d'.kind.notes,
    note.number = note'.number → x = y
  converts : ∀ {x d}, c.definition? x = some d → ∀ content ∈ d.kind.contents,
    ∀ l, content.stage = .commandsResolved l → ∃ tags, ∀ i ∈ l, i.ConvertsNotes tags

theorem isNoted_new (settings : Settings) : (new settings).IsNoted := by
  constructor <;> simp [HasDocuments, new, definition?, numbers, footnotes, footnoteList, document?]
  all_goals
    intro d
    cases d <;> simp

namespace IsNoted

variable (h : c.IsNoted)
include h

/-- Footnotes in the texts of one definition that have the same number are equal. -/
theorem eq_of_number {d : Definition} (hd : c.definition? x = some d) {note note' : Footnote}
    (hnote : note ∈ d.kind.notes) (hnote' : note' ∈ d.kind.notes)
    (hnumber : note.number = note'.number) : note = note' :=
  List.inj_on_of_nodup_map (h.nodup d.document) (h.listed hd note hnote) (h.listed hd note' hnote')
    hnumber

/-- A change that handles no text. -/
theorem of_leavesNotes (hl : LeavesNotes c c') : c'.IsNoted := by
  have hnumbers := hl.numbers
  have hold : ∀ {x d'}, c'.definition? x = some d' → ∀ note ∈ d'.kind.notes,
      ∃ d, c.definition? x = some d ∧ d.document = d'.document ∧ note ∈ d.kind.notes := by
    intro x d' hd' note hnote
    obtain ⟨content, hcontent, hnote⟩ := DefinitionKind.mem_notes.1 hnote
    rcases hl.contents hd' content hcontent with hunparsed | ⟨d, hd, hdocument, hmem⟩
    · rw [Content.footnotes_of_unparsed hunparsed] at hnote; cases hnote
    · exact ⟨d, hd, hdocument, DefinitionKind.mem_notes.2 ⟨content, hmem, hnote⟩⟩
  constructor
  · exact h.lists.of_leavesNotes hl
  · intro d
    rw [hnumbers]; exact h.nodup d
  · intro d k hk
    rw [hnumbers] at hk
    exact Nat.le_trans (h.drawn d k hk) (hl.drawn d)
  · intro x d' hd' note hnote
    obtain ⟨d, hd, hdocument, hnote⟩ := hold hd' note hnote
    rw [hl.footnotes, ← hdocument]
    exact h.listed hd note hnote
  · intro x y dx dy hx hy hdocument note hnote note' hnote' hnumber
    obtain ⟨d, hd, hdx, hnote⟩ := hold hx note hnote
    obtain ⟨d', hd', hdy, hnote'⟩ := hold hy note' hnote'
    exact h.apart hd hd' (hdx.trans (hdocument.trans hdy.symm)) note hnote note' hnote' hnumber
  · intro x d' hd' content hcontent l hstage
    rcases hl.contents hd' content hcontent with hunparsed | ⟨d, hd, -, hmem⟩
    · rw [hunparsed] at hstage; cases hstage
    · exact h.converts hd content hmem l hstage

/-- A definition without footnotes in its text is added to a document there is. -/
theorem addDefinition {d : Definition} {document : Option DocumentId} (hd : d.kind.notes = [])
    (hlist : c.HasList document) : (c.addDefinition d document).2.IsNoted := by
  have hfootnotes := c.footnoteList_addDefinition d document
  have hold : ∀ {x d'}, (c.addDefinition d document).2.definition? x = some d' →
      ∀ note ∈ d'.kind.notes, c.definition? x = some d' := by
    intro x d' hd' note hnote
    rcases of_definition?_addDefinition hd' with hd' | ⟨-, rfl⟩
    · exact hd'
    · rw [hd] at hnote; cases hnote
  constructor
  · exact h.lists.addDefinition d hlist
  · intro d'
    rw [numbers, footnotes, hfootnotes]; exact h.nodup d'
  · intro d'
    rw [numbers, footnotes, Context.drawn, hfootnotes]; exact h.drawn d'
  · intro x d' hd' note hnote
    rw [footnotes, hfootnotes]; exact h.listed (hold hd' note hnote) note hnote
  · intro x y dx dy hx hy hdocument note hnote note' hnote' hnumber
    exact h.apart (hold hx note hnote) (hold hy note' hnote') hdocument note hnote note' hnote'
      hnumber
  · intro x d' hd' content hcontent l hstage
    rcases of_definition?_addDefinition hd' with hd' | ⟨-, rfl⟩
    · exact h.converts hd' content hcontent l hstage
    · refine ⟨.unset, fun i hi => .of_footnotes_eq_nil ?_ _⟩
      rw [DefinitionKind.notes_of_mem hcontent hstage] at hd
      rw [List.eq_nil_iff_forall_not_mem] at hd ⊢
      exact fun note hnote => hd note (Inline.mem_footnotes_iff.2 ⟨i, hi, hnote⟩)

end IsNoted

end Context

/-- The lists of footnotes are changed, and what one definition holds. -/
theorem Context.IsNoted.modifyKind (h : c.IsNoted) {d : Definition}
    {f : DefinitionKind → DefinitionKind} (hd : c.definition? x = some d)
    (hdefinitions : c'.definitions = c.definitions) (hlists : ∀ {d}, c.HasList d → c'.HasList d)
    (hnodup : ∀ d, (c'.numbers d).Nodup) (hdrawn : ∀ d, ∀ k ∈ c'.numbers d, k ≤ c'.drawn d)
    (hnew : ∀ note ∈ (f d.kind).notes, note ∈ c'.footnotes d.document)
    (hold : ∀ {y d'}, c.definition? y = some d' → x ≠ y →
      ∀ note ∈ d'.kind.notes, note ∈ c'.footnotes d'.document)
    (hapart : ∀ {y d'}, c.definition? y = some d' → x ≠ y → d.document = d'.document →
      ∀ note ∈ (f d.kind).notes, ∀ note' ∈ d'.kind.notes, note.number ≠ note'.number)
    (hconverts : ∀ content ∈ (f d.kind).contents, ∀ l, content.stage = .commandsResolved l →
      ∃ tags, ∀ i ∈ l, i.ConvertsNotes tags) :
    (c'.modifyDefinition x fun d => { d with kind := f d.kind }).IsNoted := by
  have hcases : ∀ {y d'},
      (c'.modifyDefinition x fun d => { d with kind := f d.kind }).definition? y = some d' →
        x = y ∧ d' = { d with kind := f d.kind } ∨ x ≠ y ∧ c.definition? y = some d' := by
    intro y d' hd'
    have hsame := definition?_of_definitions_eq hdefinitions
    rcases of_definition?_modifyDefinition hd' with ⟨hne, hd'⟩ | ⟨rfl, d₁, hd₁, rfl⟩
    · exact Or.inr ⟨hne, hsame y ▸ hd'⟩
    · cases hd.symm.trans (hsame x ▸ hd₁)
      exact Or.inl ⟨rfl, rfl⟩
  constructor
  · intro y d' hd'
    rcases hcases hd' with ⟨rfl, rfl⟩ | ⟨-, hd'⟩
    · have hlist := h.lists hd
      exact hlists hlist
    · exact hlists (h.lists hd')
  · exact hnodup
  · exact hdrawn
  · intro y d' hd'
    rcases hcases hd' with ⟨rfl, rfl⟩ | ⟨hne, hd'⟩
    · exact hnew
    · exact hold hd' hne
  · intro y z dy dz hy hz hdocument note hnote note' hnote' hnumber
    rcases hcases hy with ⟨rfl, rfl⟩ | ⟨hney, hy⟩ <;> rcases hcases hz with ⟨rfl, rfl⟩ | ⟨hnez, hz⟩
    · rfl
    · exact absurd hnumber (hapart hz hnez hdocument note hnote note' hnote')
    · exact absurd hnumber.symm (hapart hy hney hdocument.symm note' hnote' note hnote)
    · exact h.apart hy hz hdocument note hnote note' hnote' hnumber
  · intro y d' hd'
    rcases hcases hd' with ⟨rfl, rfl⟩ | ⟨-, hd'⟩
    · exact hconverts
    · exact h.converts hd'

/-! ## Texts that are handled -/

/-- On top of numbers that are different and drawn, those that are held back are so, too. -/
theorem Draws.nodup {d : Option DocumentId} {held : List Nat} (h : Draws d held c c')
    (hd : c.HasList d) (hnodup : (c.numbers d).Nodup) (hdrawn : ∀ k ∈ c.numbers d, k ≤ c.drawn d) :
    (c'.numbers d ++ held).Nodup ∧ ∀ k ∈ c'.numbers d ++ held, k ≤ c'.drawn d := by
  obtain ⟨n, gained, hn, hnumbers, hperm⟩ := h.drawn hd
  have hrange : ∀ k ∈ gained ++ held, c.drawn d + 1 ≤ k ∧ k < c.drawn d + 1 + n :=
    fun k hk => List.mem_range'_1.1 (hperm.mem_iff.1 hk)
  rw [hnumbers, List.append_assoc]
  constructor
  · refine List.nodup_append.2 ⟨hnodup, hperm.nodup_iff.2 List.nodup_range', ?_⟩
    rintro k hk _ hk' rfl
    have hle := hdrawn k hk
    have hlt := (hrange k hk').1
    omega
  · intro k hk
    rcases List.mem_append.1 hk with hk | hk
    · have hle := hdrawn k hk
      omega
    · have hlt := (hrange k hk).2
      omega

namespace Context

variable {notes : List Footnote}

/-- The footnotes of a list, after all those of one list are changed. -/
theorem footnotes_modifyFootnotes {document : Option DocumentId} (h : c.HasList document)
    (f : FootnoteList → FootnoteList) (d : Option DocumentId) :
    (c.modifyFootnotes document f).footnotes d =
      if document = d then (f (c.footnoteList d)).routed else c.footnotes d := by
  rw [Context.footnotes, Context.footnotes]
  by_cases he : document = d
  · subst he
    rw [footnoteList_modifyFootnotes c document f h, if_pos rfl, if_pos rfl]
  · rcases footnoteList_modifyFootnotes_cases c document f d with hlist | ⟨hd, -⟩
    · rw [hlist, if_neg he]
    · exact absurd hd he

/-- **A text is handled.**  Its footnotes leave their place under numbers that are new. -/
theorem IsNoted.handle (h : c.IsNoted) {d : Definition} {tags : Tags} {l : List Inline}
    (hd : c.definition? x = some d)
    (hnodup : (c.numbers d.document ++ notes.map Footnote.number).Nodup)
    (hdrawn : ∀ note ∈ notes, note.number ≤ c.drawn d.document)
    (hl : ∀ i ∈ l, i.Records tags notes) :
    ((c.routeFootnotes d.document notes).modifyDefinition x fun d =>
      { d with kind := d.kind.mapContents fun content => content.resolveCommands l }).IsNoted := by
  have hfootnotes : ∀ document, (c.routeFootnotes d.document notes).footnotes document =
      if d.document = document then c.footnotes document ++ notes else c.footnotes document :=
    fun document => footnotes_modifyFootnotes (h.lists hd) _ document
  have hnumbers : ∀ document, (c.routeFootnotes d.document notes).numbers document =
      if d.document = document then c.numbers document ++ notes.map Footnote.number
        else c.numbers document := by
    intro document
    rw [numbers, hfootnotes]
    split
    · exact List.map_append
    · rfl
  have hnotes : ∀ note ∈ (d.kind.mapContents fun content => content.resolveCommands l).notes,
      note ∈ notes := by
    intro note hnote
    obtain ⟨content', hcontent', hnote⟩ := DefinitionKind.mem_notes.1 hnote
    obtain ⟨content, -, rfl⟩ := DefinitionKind.mem_contents_mapContents.1 hcontent'
    obtain ⟨i, hi, hnote⟩ := Inline.mem_footnotes_iff.1 hnote
    exact (hl i hi).recorded note hnote
  refine h.modifyKind hd ?_ (fun {document} hdocument => ?_) (fun document => ?_)
    (fun document k hk => ?_) (fun note hnote => ?_) (fun {y d'} hd' _ note hnote => ?_)
    (fun {y d'} hd' _ hdocument note hnote note' hnote' hnumber => ?_)
    fun content' hcontent' l' hstage => ?_
  · cases d.document <;> rfl
  · rwa [routeFootnotes, hasList_modifyFootnotes]
  · rw [hnumbers]
    split
    · rename_i he
      rw [← he]; exact hnodup
    · exact h.nodup document
  · rw [hnumbers] at hk
    rw [drawn_routeFootnotes]
    split at hk
    · rename_i he
      rcases List.mem_append.1 hk with hk | hk
      · exact h.drawn document k hk
      · obtain ⟨note, hnote, rfl⟩ := List.mem_map.1 hk
        rw [← he]; exact hdrawn note hnote
    · exact h.drawn document k hk
  · rw [hfootnotes, if_pos rfl]
    exact List.mem_append_right _ (hnotes note hnote)
  · rw [hfootnotes]
    split
    · exact List.mem_append_left _ (h.listed hd' note hnote)
    · exact h.listed hd' note hnote
  · -- the footnotes of other texts are in the list already, the new ones are not
    have hold : note'.number ∈ c.numbers d.document := by
      rw [hdocument]; exact List.mem_map_of_mem (h.listed hd' note' hnote')
    have hnew : note.number ∈ notes.map Footnote.number := List.mem_map_of_mem (hnotes note hnote)
    exact (List.nodup_append.1 hnodup).2.2 _ hold _ hnew hnumber.symm
  · obtain ⟨content, -, rfl⟩ := DefinitionKind.mem_contents_mapContents.1 hcontent'
    cases hstage
    exact ⟨tags, fun i hi => (hl i hi).converts⟩

/-! ## Texts that are converted -/

/-- A footnote is put in the place of the one with its number. -/
theorem mem_replaceFootnote {routed : List Footnote} {note : Footnote}
    (h : note.number ∈ routed.map Footnote.number) : note ∈ replaceFootnote note routed := by
  induction routed with
  | nil => cases h
  | cons old rest ih =>
    rw [replaceFootnote]
    split
    · exact List.mem_cons_self
    · rename_i hne
      rcases List.mem_cons.1 h with he | h
      · exact absurd he.symm hne
      · exact List.mem_cons_of_mem _ (ih h)

/-- A footnote stays unless another one is put in its place. -/
theorem mem_replaceFootnote_of_mem {routed : List Footnote} {note note' : Footnote}
    (h : note ∈ routed) (hnote : note'.number = note.number → note' = note) :
    note ∈ replaceFootnote note' routed := by
  induction routed with
  | nil => cases h
  | cons old rest ih =>
    rw [replaceFootnote]
    split
    · rename_i he
      rcases List.mem_cons.1 h with rfl | h
      · rw [hnote he.symm]; exact List.mem_cons_self
      · exact List.mem_cons_of_mem _ h
    · rcases List.mem_cons.1 h with rfl | h
      · exact List.mem_cons_self
      · exact List.mem_cons_of_mem _ (ih h)

theorem mem_foldl_replaceFootnote_of_mem {routed : List Footnote} {note : Footnote}
    (h : note ∈ routed) (hnotes : ∀ note' ∈ notes, note'.number = note.number → note' = note) :
    note ∈ notes.foldl (fun routed note => replaceFootnote note routed) routed := by
  induction notes generalizing routed with
  | nil => exact h
  | cons note' notes ih =>
    exact ih (mem_replaceFootnote_of_mem h (hnotes note' (by simp))) fun other hother =>
      hnotes other (by simp [hother])

theorem mem_foldl_replaceFootnote {routed : List Footnote} {note : Footnote}
    (hmem : note ∈ notes) (hnumber : note.number ∈ routed.map Footnote.number)
    (hnotes : ∀ note' ∈ notes, note'.number = note.number → note' = note) :
    note ∈ notes.foldl (fun routed note => replaceFootnote note routed) routed := by
  induction notes generalizing routed with
  | nil => cases hmem
  | cons note' notes ih =>
    have hrest : ∀ other ∈ notes, other.number = note.number → other = note :=
      fun other hother => hnotes other (by simp [hother])
    rw [List.foldl_cons]
    rcases List.mem_cons.1 hmem with rfl | hmem
    · exact mem_foldl_replaceFootnote_of_mem (mem_replaceFootnote hnumber) hrest
    · refine ih hmem ?_ hrest
      rwa [numbers_replaceFootnote]

/-- **A text is converted.**  Its footnotes are put in the places of those with their numbers. -/
theorem IsNoted.convert (h : c.IsNoted) {d : Definition} {f : DefinitionKind → DefinitionKind}
    (hd : c.definition? x = some d) (hnotes : ∀ note ∈ (f d.kind).notes, note ∈ notes)
    (hnumbers : ∀ note ∈ notes, ∃ old ∈ d.kind.notes, old.number = note.number)
    (hfun : ∀ note ∈ notes, ∀ note' ∈ notes, note'.number = note.number → note' = note)
    (hconverted : ∀ content ∈ (f d.kind).contents, ∀ l, content.stage ≠ .commandsResolved l) :
    ((c.rerouteFootnotes d.document notes).modifyDefinition x fun d =>
      { d with kind := f d.kind }).IsNoted := by
  have hfootnotes : ∀ document, (c.rerouteFootnotes d.document notes).footnotes document =
      if d.document = document then
        notes.foldl (fun routed note => replaceFootnote note routed) (c.footnotes document)
      else c.footnotes document :=
    fun document => footnotes_modifyFootnotes (h.lists hd) _ document
  refine h.modifyKind hd ?_ (fun {document} hdocument => ?_) (fun document => ?_)
    (fun document k hk => ?_) (fun note hnote => ?_) (fun {y d'} hd' hne note hnote => ?_)
    (fun {y d'} hd' hne hdocument note hnote note' hnote' hnumber => ?_)
    fun content' hcontent' l' hstage => absurd hstage (hconverted content' hcontent' l')
  · cases d.document <;> rfl
  · rwa [rerouteFootnotes, hasList_modifyFootnotes]
  · rw [numbers_rerouteFootnotes]
    exact h.nodup document
  · rw [numbers_rerouteFootnotes] at hk
    rw [drawn_rerouteFootnotes]
    exact h.drawn document k hk
  · have hmem := hnotes note hnote
    obtain ⟨old, hold, hnumber⟩ := hnumbers note hmem
    rw [hfootnotes, if_pos rfl]
    refine mem_foldl_replaceFootnote hmem ?_ (hfun note hmem)
    rw [← hnumber]
    exact List.mem_map_of_mem (h.listed hd old hold)
  · -- the footnotes of other texts have other numbers
    rw [hfootnotes]
    split
    · rename_i hdocument
      refine mem_foldl_replaceFootnote_of_mem (h.listed hd' note hnote) fun note' hnote' he => ?_
      obtain ⟨old, hold, hnumber⟩ := hnumbers note' hnote'
      exact absurd (h.apart hd hd' hdocument old hold note hnote (hnumber.trans he)) hne
    · exact h.listed hd' note hnote
  · obtain ⟨old, hold, hold'⟩ := hnumbers note (hnotes note hnote)
    exact hne (h.apart hd hd' hdocument old hold note' hnote' (hold'.trans hnumber))

end Context

/-! ## Passes -/

/-- What any command does to a context keeps its footnotes in order. -/
theorem permits_isNoted : Permits (fun _ => True) fun c c' => c.IsNoted → c'.IsNoted :=
  permits_leavesNotes.mono ⟨fun _ h => h, fun h h' hc => h' (h hc)⟩
    fun hl hc => hc.of_leavesNotes hl

theorem Context.IsNoted.atDepth (h : c.IsNoted) (depth : Nat) : (c.atDepth depth).IsNoted :=
  h.of_leavesNotes (.of_eq rfl rfl rfl)

/-- The command pass keeps footnotes in texts and in lists equal. -/
theorem isNoted_handleCommands (n : Nat) (id : DefinitionId) :
    (Engine.handleCommands n id).Moves fun c c' => c.IsNoted → c'.IsNoted := by
  refine Engine.handleCommands_moves permits_isNoted.toComposes (fun h hc => ?leave)
    (fun _ _ _ _ hc => ?target) (fun n hh c id d content r c' hd hcontent h hc => ?content) n id
  case leave => exact (h (hc.atDepth _)).atDepth _
  case target =>
    exact hc.of_leavesNotes ((LeavesNotes.addReference _ _ _).trans (.setTarget _ _ _))
  case content =>
    refine Engine.resolveContent_moves permits_isNoted hh hd
      (fun {written tags l notes c₁} _ hwritten hl hmoves _ => ?_) h hc
    have hextends : Extends c c₁ := Inline.executeList_moves permits_extends
      (extends_handleCommands n) written (fun _ _ => Inline.uses_all) tags _ _ _ hl
    obtain ⟨references, kind, hd₁, -, -⟩ := hextends.old hd
    -- no number is held back twice, since what draws in between lists all that it draws
    have hdraws := draws_executeList (balances_handleCommands d.document n) hl
    rw [held, if_pos rfl] at hdraws
    obtain ⟨hnodup, hdrawn⟩ := hdraws.nodup (hc.lists hd) (hc.nodup _) (hc.drawn _)
    rw [modifyContent_eq]
    refine (hmoves hc).handle (d := { d with references, kind }) hd₁ hnodup
      (fun note hnote => hdrawn _ ?_)
      (Inline.records_executeList (Markup.isFresh_of_mem_parse hwritten) hl)
    exact List.mem_append_right _ (List.mem_map_of_mem hnote)

/-- The footnotes of a definition whose handled text is converted. -/
theorem DefinitionKind.notes_resolveFonts {kind : DefinitionKind} {content : Content}
    {l : List Inline} (hcontent : content ∈ kind.contents)
    (hstage : content.stage = .commandsResolved l) (f : Inline → Inline) :
    (kind.mapContents fun content => content.resolveFonts f).notes =
      Inline.footnotes (l.map f) := by
  have hinlines : (content.resolveFonts f).inlines = l.map f := by
    rw [Content.resolveFonts, hstage]; rfl
  rw [notes, contents_mapContents, contents_eq_of_mem hcontent, List.map_singleton,
    List.flatMap_singleton, hinlines]

section
variable {fonts : FontRegistry} {effective : Option Tags} {tags : Tags} {d : Definition}
  {kind : DefinitionKind} {content : Content} {l : List Inline}

/-- Conversion changes the footnotes of a definition one by one, whether this is the first
    conversion or not. -/
theorem Context.IsNoted.exists_notes_convert (h : c.IsNoted) (hcontent : content ∈ d.kind.contents)
    (hstage : content.stage = .commandsResolved l) (hd : c.definition? x = some { d with kind })
    (hk : d.kind.Converts fonts effective kind) (htags : effective = some tags) :
    ∃ g : Footnote → Footnote, (∀ note, (g note).number = note.number) ∧
      (d.kind.mapContents fun content => content.resolveFonts (Inline.remap fonts tags)).notes =
        kind.notes.map g := by
  cases hk with
  | same =>
    obtain ⟨tags', hl⟩ := h.converts hd content hcontent l hstage
    refine ⟨Footnote.remap fonts tags, fun _ => rfl, ?_⟩
    rw [DefinitionKind.notes_resolveFonts hcontent hstage,
      DefinitionKind.notes_of_mem hcontent hstage]
    exact Inline.ConvertsNotes.list hl rfl
  | fonts htags' =>
    cases htags.symm.trans htags'
    exact ⟨id, fun _ => rfl, (List.map_id _).symm⟩

/-- No text of a definition that is converted waits for that. -/
theorem DefinitionKind.converted_of_resolveFonts (f : Inline → Inline) :
    ∀ content' ∈ (kind.mapContents fun content => content.resolveFonts f).contents,
      ∀ l, content'.stage ≠ .commandsResolved l := by
  intro content' hcontent' l
  obtain ⟨⟨source, stage⟩, -, rfl⟩ := mem_contents_mapContents.1 hcontent'
  cases stage <;> simp [Content.resolveFonts]

end

/-- The font pass keeps footnotes in texts and in lists equal. -/
theorem isNoted_handleFonts (n : Nat) (id : DefinitionId) :
    (Engine.handleFonts n id).Moves fun c c' => Converts c c' ∧ (c.IsNoted → c'.IsNoted) := by
  refine Engine.handleFonts_moves
    ⟨fun c => ⟨.refl c, fun hc => hc⟩, fun h h' => ⟨h.1.trans h'.1, fun hc => h'.2 (h.2 hc)⟩⟩
    (fun h => ⟨h.1.leave, fun hc => (h.2 (hc.atDepth _)).atDepth _⟩)
    (fun {c c₁ id d content l r c'} hd hcontent hstage hmoves h => ?_) n id
  refine ⟨hmoves.1.trans (converts_convertContent h), fun hc => ?_⟩
  have hc₁ := hmoves.2 hc
  obtain ⟨tags, d₁, warnings, htags, hd₁, -, rfl⟩ := Engine.gives_convertContent h
  obtain ⟨kind, hd₁', hk⟩ := hmoves.1.definition hd
  obtain rfl := Option.some.inj (hd₁.symm.trans hd₁')
  rw [← hmoves.1.fonts_eq, ← hmoves.1.effectiveTags?] at hk
  obtain ⟨g, hg, hnotes⟩ := hc₁.exists_notes_convert hcontent hstage hd₁ hk htags
  have hconverted : Inline.footnotes (Inline.remapList c₁.fonts tags l) = kind.notes.map g := by
    rw [Inline.remapList_eq, ← DefinitionKind.notes_resolveFonts hcontent hstage, hnotes]
  have hcommute : ∀ (c : Context) document notes id f,
      (c.modifyDefinition id f).rerouteFootnotes document notes =
        (c.rerouteFootnotes document notes).modifyDefinition id f := by
    intro c document notes id f
    cases document <;> rfl
  rw [hcommute, hconverted]
  have hwarned : (c₁.warnAll warnings).IsNoted := hc₁.of_leavesNotes (.of_eq rfl rfl rfl)
  refine hwarned.convert (d := { d with kind }) hd₁ (fun note hnote => ?_) (fun note hnote => ?_)
    (fun note hnote note' hnote' hnumber => ?_) (DefinitionKind.converted_of_resolveFonts _)
  · have hagain := hk.again htags
    rw [← hnotes, ← hagain]
    exact hnote
  · obtain ⟨old, hold, rfl⟩ := List.mem_map.1 hnote
    exact ⟨old, hold, (hg old).symm⟩
  · obtain ⟨old, hold, rfl⟩ := List.mem_map.1 hnote
    obtain ⟨old', hold', rfl⟩ := List.mem_map.1 hnote'
    rw [hg, hg] at hnumber
    rw [hc₁.eq_of_number hd₁ hold' hold hnumber]

/-! ## Reachable contexts -/

/-- A document that the edit names is one of the context, and a definition that is added by hand
    has no footnotes in its text. -/
def Edit.AddsNoNotes (c : Context) (e : Edit) : Prop :=
  e.FindsDocument c ∧ ∀ d ∈ e.made?, d.kind.notes = []

instance (c : Context) (e : Edit) : Decidable (e.AddsNoNotes c) :=
  inferInstanceAs (Decidable (e.FindsDocument c ∧ ∀ d ∈ e.made?, d.kind.notes = []))

/-- An edit that adds no footnotes keeps those there are in order. -/
theorem Context.IsNoted.edit {e : Edit} (h : c.IsNoted) (he : e.AddsNoNotes c) :
    (e.apply c).IsNoted := by
  rcases he.1.unread_or_made with hunread | ⟨d, document, rfl⟩
  · exact h.of_leavesNotes (Edit.leavesNotes hunread h.lists)
  · exact h.addDefinition (he.2 d rfl) he.1

/-- So does a call. -/
theorem Context.IsNoted.call {call : Call} {r : Except Error Unit} (h : c.IsNoted)
    (hends : call.Ends c r c') : c'.IsNoted :=
  hends.moves ⟨fun _ hc => hc, fun h h' hc => h' (h hc)⟩ isNoted_handleCommands
    (fun n id c r c' h => (isNoted_handleFonts n id c r c' h).2) h

/-- Footnotes are noted in every context that edits and calls lead to, if the edits add none. -/
theorem Context.Reached.isNoted {E : Context → Edit → Prop}
    {P : Context → Call → Except Error Unit → Prop} (hE : ∀ c e, E c e → e.AddsNoNotes c)
    (h : c.Reached E P) : c.IsNoted := by
  induction h with
  | new settings => exact isNoted_new settings
  | edit _ he ih => exact ih.edit (hE _ _ he)
  | call _ _ hends ih => exact ih.call hends

/-- **The footnotes in a text are those in the list of its document.**  After any edits and calls,
    the list of the document that a definition is in has exactly one footnote under the number of
    a footnote in a text of that definition, and this is the same one, body and all.  (A text
    that is not handled has no footnotes.)  What is asked of definitions that are added by hand,
    copies of others among them, is that they bring no footnotes along: a copied text does not
    put its footnotes into the list. -/
theorem footnotes_agree (h : c.ReachedBy Edit.AddsNoNotes) {d : Definition}
    (hd : c.definition? x = some d) {content : Content} (hcontent : content ∈ d.kind.contents)
    {note : Footnote} (hnote : note ∈ Inline.footnotes content.inlines) :
    (c.footnotes d.document).filter (fun other => other.number = note.number) = [note] := by
  have hnoted : c.IsNoted := Reached.isNoted (fun _ _ he => he) h
  have hlisted := hnoted.listed hd note (DefinitionKind.mem_notes.2 ⟨content, hcontent, hnote⟩)
  have hnodup := hnoted.nodup d.document
  refine List.perm_singleton.1 ((List.perm_ext_iff_of_nodup ?_ (List.nodup_singleton _)).2 ?_)
  · exact hnodup.of_map.filter _
  · intro other
    rw [List.mem_filter, List.mem_singleton, decide_eq_true_iff]
    constructor
    · rintro ⟨hother, hnumber⟩
      exact List.inj_on_of_nodup_map hnodup hother hlisted hnumber
    · rintro rfl
      exact ⟨hlisted, rfl⟩

/-- Text in a legacy font with a footnote in the body of another one, after the font pass.  The
    inner footnote stands in the parameter of the outer command and in the body of its
    footnote. -/
theorem footnotes_agree_of_nested :
    ∃ c : Context, ∃ d content note, c.ReachedBy Edit.AddsNoNotes ∧ c.definition? ⟨1⟩ = some d ∧
      content ∈ d.kind.contents ∧ note ∈ Inline.footnotes content.inlines ∧
      c.text? ⟨1⟩ = some "ⲝ[2]" ∧ c.numbers d.document = [1, 2] ∧
      (Inline.footnotes content.inlines).map Footnote.number = [2, 1, 1] ∧
      (c.footnotes d.document).filter (fun other => other.number = note.number) = [note] := by
  let edits := [Edit.addDocument "d" "D",
    .addVersion ⟨0⟩ (.ofKnown .coptic) (some "CS Avva Shenouda"),
    .addStanza ⟨0⟩ none "x\\footnote\x7by\\footnote\x7bz\x7d\x7d"]
  let c := (Call.commands ⟨1⟩).run 4 (edits.foldl Edit.apply (.new {}))
  let c' := (Call.fonts ⟨1⟩).run 4 c
  have hedits : (edits.foldl Edit.apply (.new {})).ReachedBy Edit.AddsNoNotes :=
    (Reached.new {}).edits (by decide +kernel)
  have hc : c.ReachedBy Edit.AddsNoNotes := .call hedits trivial (Call.ends_run (by decide +kernel))
  have hc' : c'.ReachedBy Edit.AddsNoNotes := .call hc trivial (Call.ends_run (by decide +kernel))
  obtain ⟨d, hd, hdocument, content, hcontent, hnumbers, note, hnote⟩ :
      ∃ d ∈ c'.definition? ⟨1⟩, d.document = some ⟨0⟩ ∧ ∃ content ∈ d.kind.contents,
        (Inline.footnotes content.inlines).map Footnote.number = [2, 1, 1] ∧
          ∃ note ∈ Inline.footnotes content.inlines, note.number = 1 := by
    decide +kernel
  refine ⟨c', d, content, note, hc', hd, hcontent, hnote.1, by decide +kernel, ?_, hnumbers,
    footnotes_agree hc' hd hcontent hnote.1⟩
  rw [hdocument]
  decide +kernel

/-- A stanza of one document is handled, and a copy of it is added to another one: the copy has the
    footnote in its text, and the list of its document has none. -/
theorem not_footnotes_agree_of_copy :
    ∃ c : Context, ∃ d content note, c.IsReachable ∧ c.definition? ⟨2⟩ = some d ∧
      d.document = some ⟨1⟩ ∧ content ∈ d.kind.contents ∧
      note ∈ Inline.footnotes content.inlines ∧ c.numbers (some ⟨0⟩) = [1] ∧
      (c.footnotes d.document).filter (fun other => other.number = note.number) ≠ [note] := by
  let edits := [Edit.addDocument "a" "A", .addDocument "b" "B",
    .addVersion ⟨0⟩ (.ofKnown .coptic) none, .addStanza ⟨0⟩ none "x\\footnote\x7bn\x7d"]
  obtain ⟨c, hc, hsize, hlist, hnumbers, hnone, original, horiginal, content, hcontent, note,
      hnote⟩ : ∃ c : Context, c.IsReachable ∧ c.definitions.size = 2 ∧ c.HasList (some ⟨1⟩) ∧
        c.numbers (some ⟨0⟩) = [1] ∧ c.numbers (some ⟨1⟩) = [] ∧
        ∃ original ∈ c.definition? ⟨1⟩, ∃ content ∈ original.kind.contents,
          ∃ note ∈ Inline.footnotes content.inlines, note.number = 1 := by
    have hedits : (edits.foldl Edit.apply (.new {})).IsReachable :=
      (IsReachable.new {}).edits (by decide +kernel)
    exact ⟨(Call.commands ⟨1⟩).run 4 (edits.foldl Edit.apply (.new {})),
      .call hedits (Call.ends_run (by decide +kernel)), by decide +kernel⟩
  have hfootnotes := c.footnoteList_addDefinition original (some ⟨1⟩)
  refine ⟨(c.addDefinition original (some ⟨1⟩)).2, { original with document := some ⟨1⟩ }, content,
    note, .copy hc hc horiginal (List.Subset.refl _) hlist, ?_, rfl, hcontent, hnote.1, ?_, ?_⟩
  · rw [definition?_addDefinition, if_pos hsize.symm]
  · rw [numbers, footnotes, hfootnotes]
    exact hnumbers
  · have hempty : c.footnotes (some ⟨1⟩) = [] := List.map_eq_nil_iff.1 hnone
    rw [footnotes, hfootnotes, ← footnotes, hempty]
    rintro ⟨⟩

end Rubric
