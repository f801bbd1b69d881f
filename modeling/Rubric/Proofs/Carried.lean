/-
  Rubric — the tags that footnotes take with them.

  The body of a footnote leaves the text it is written in.  It is a span with
  the tags in effect at its command: those in effect at the definition that owns
  the text, and the language of a command around it.  What is not set there is
  taken from wherever the body is rendered.

  * `Tags.RendersLike`: tags between which rendering makes no difference;
  * `Footnote.Carries`: the body has the tags of a text; `Inline.carries_rules`: those
    that an execution gives do;
  * `Context.Annotates`: a definition with an unread footnote and given tags in effect;
  * `Context.KeepsUnread c c'`: what is unread in `c'` was so in `c`, under the same tags;
  * **`footnotes_keep_tags`**: a footnote in a list is rendered alike in all places
    that agree on what was not set where it was written.
-/
import Rubric.Proofs.WellFormed

namespace Rubric

open Context

variable {c c' c₀ c₁ : Context} {id x : DefinitionId} {tags own place place' : Tags}

/-! ## Rendering in two places -/

/-- Between the tags rendering makes no difference: the font is the same, and text is transliterated
    in both or in none. -/
structure Tags.RendersLike (place place' : Tags) : Prop where
  font : place.fontName? = place'.fontName?
  script : place.isTransliterated = place'.isTransliterated

namespace Tags

/-- Tags that are set leave no difference, and for others it is enough that the places agree. -/
theorem rendersLike_inherit (hfont : own.font = .inherit → place.fontName? = place'.fontName?)
    (hlanguage : own.language = none → place.isTransliterated = place'.isTransliterated) :
    (own.inherit place).RendersLike (own.inherit place') := by
  rcases own with ⟨language, font⟩
  constructor
  · cases font with
    | inherit => exact hfont rfl
    | named name => rfl
    | cleared => rfl
  · cases language with
    | none => exact hlanguage rfl
    | some language => rfl

namespace RendersLike

variable (h : place.RendersLike place')
include h

theorem inherit (own : Tags) : (own.inherit place).RendersLike (own.inherit place') :=
  rendersLike_inherit (fun _ => h.font) fun _ => h.script

theorem typedFont? : place.typedFont? = place'.typedFont? := by
  rw [Tags.typedFont?, Tags.typedFont?, h.font, h.script]

end RendersLike

end Tags

namespace Inline

variable {segmentsOf : DefinitionId → Option (List Segment)}

/-- An inline has the same segments in places that render alike. -/
theorem segments_of_rendersLike (i : Inline) (h : place.RendersLike place') :
    segments segmentsOf place i = segments segmentsOf place' i := by
  have list : ∀ {l : List Inline} {place place' : Tags}, place.RendersLike place' →
      (∀ i ∈ l, ∀ {place place' : Tags}, place.RendersLike place' →
        segments segmentsOf place i = segments segmentsOf place' i) →
      segmentsList segmentsOf place l = segmentsList segmentsOf place' l := by
    intro l place place' h ih
    induction l with
    | nil => rw [segmentsList, segmentsList]
    | cons i l ihl =>
      rw [segmentsList, segmentsList, ih i (by simp) h, ihl fun j hj => ih j (by simp [hj])]
  induction i using induction generalizing place place' with
  | run text own => rw [segments_run, segments_run, (h.inherit own).typedFont?]
  | span l own ih =>
    rw [segments_span, segments_span]
    exact list (h.inherit own) fun i hi _ _ => ih i hi
  | command name kind parameters own evaluation ihp ihe =>
    rw [segments_command, segments_command]
    rcases evaluation.output? with _ | id | n | j
    · rfl
    · rfl
    all_goals
      refine list (h.inherit own) fun i hi _ _ h => ?_
      rcases Evaluation.mem_of_mem_shownOf hi with hp | he
      · exact ihp i hp h
      · exact ihe i he h

theorem segmentsList_of_rendersLike (l : List Inline) (h : place.RendersLike place') :
    segmentsList segmentsOf place l = segmentsList segmentsOf place' l := by
  have hspan : segments segmentsOf place (.span l .unset) =
      segments segmentsOf place' (.span l .unset) := segments_of_rendersLike _ h
  rwa [segments_span, segments_span] at hspan

end Inline

/-! ## The tags of a body -/

/-- The body of the footnote is a span with the font of `tags`, and with its language or one of its
    own. -/
def Footnote.Carries (note : Footnote) (tags : Tags) : Prop :=
  ∃ l own, note.body = .span l own ∧ own.font = tags.font ∧
    (own.language = tags.language ∨ own.language.isSome)

namespace Footnote.Carries

variable {note : Footnote}

/-- Text in a language of its own. -/
theorem of_language {language : Language}
    (h : note.Carries { tags with language := some language }) : note.Carries tags := by
  obtain ⟨l, own, hbody, hfont, hlanguage⟩ := h
  refine ⟨l, own, hbody, hfont, Or.inr ?_⟩
  rcases hlanguage with hlanguage | hlanguage
  · rw [hlanguage]; rfl
  · exact hlanguage

/-- Conversion leaves the tags of the body. -/
theorem remap (h : note.Carries tags) (fonts : FontRegistry) (enclosing : Tags) :
    (note.remap fonts enclosing).Carries tags := by
  obtain ⟨l, own, hbody, hown⟩ := h
  exact ⟨_, own, by rw [Footnote.remap, hbody, Inline.remap_span], hown⟩

/-- Places that agree on what the tags leave open render the body alike. -/
theorem normalizedInlineText? (h : note.Carries tags)
    (hfont : tags.font = .inherit → place.fontName? = place'.fontName?)
    (hlanguage : tags.language = none → place.isTransliterated = place'.isTransliterated)
    (c : Context) :
    c.normalizedInlineText? place note.body = c.normalizedInlineText? place' note.body := by
  obtain ⟨l, own, hbody, hfont', hlanguage'⟩ := h
  have hplaces : (own.inherit place).RendersLike (own.inherit place') := by
    refine Tags.rendersLike_inherit (fun hopen => hfont (hfont' ▸ hopen)) fun hopen => ?_
    rw [hopen] at hlanguage'
    exact hlanguage (hlanguage'.resolve_right (by simp)).symm
  have hsegments : c.inlineSegments? place note.body = c.inlineSegments? place' note.body := by
    rw [inlineSegments?, inlineSegments?, hbody, Inline.segments_span, Inline.segments_span]
    exact Inline.segmentsList_of_rendersLike l hplaces
  rw [Context.normalizedInlineText?, Context.normalizedInlineText?, hsegments]

end Footnote.Carries

namespace Inline

/-- A footnote is written in the inline, and not executed yet. -/
def HasNote (i : Inline) : Prop :=
  ∃ j ∈ i.nested, j.pendingKind? = some .footnote

instance (i : Inline) : Decidable i.HasNote :=
  inferInstanceAs (Decidable (∃ j ∈ i.nested, j.pendingKind? = some .footnote))

theorem HasNote.span {l : List Inline} (own : Tags) (h : ∃ i ∈ l, i.HasNote) :
    (span l own).HasNote := by
  obtain ⟨i, hi, j, hj, hkind⟩ := h
  exact ⟨j, mem_nested_span.2 (Or.inr (mem_nestedList.2 ⟨i, hi, hj⟩)), hkind⟩

theorem HasNote.command {ps : List Inline} (name : String) (kind : CommandKind) (own : Tags)
    (evaluation : Evaluation) (h : ∃ i ∈ ps, i.HasNote) :
    (command name kind ps own evaluation).HasNote := by
  obtain ⟨i, hi, j, hj, hkind⟩ := h
  have hmem := mem_nestedList.2 ⟨i, hi, hj⟩
  exact ⟨j, mem_nested_command.2 (Or.inr (Or.inl hmem)), hkind⟩

theorem hasNote_footnote (name : String) (ps : List Inline) (own : Tags) :
    (command name .footnote ps own .pending).HasNote :=
  ⟨_, self_mem_nested _, rfl⟩

/-- The footnotes that execution gives carry the tags of the text around, and are written in it. -/
theorem carries_rules {handle : DefinitionId → Engine Unit} (scope : Scope) :
    ExecutionRules handle scope
      (fun tags i _ _ notes _ => i.IsFresh → ∀ note ∈ notes, note.Carries tags ∧ i.HasNote)
      (fun tags l _ _ notes _ => (∀ i ∈ l, i.IsFresh) →
        ∀ note ∈ notes, note.Carries tags ∧ ∃ i ∈ l, i.HasNote) := by
  refine ⟨?run, ?span, ?executed, ?ternary, ?language, ?command, ?nil, ?cons⟩
  case run | executed | nil => simp
  case span =>
    intro tags l own c l' notes c' ih hfresh note hnote
    obtain ⟨rfl, hl⟩ := isFresh_span.1 hfresh
    exact (ih hl note hnote).imp_right (.span _)
  case ternary =>
    intro tags name condition yes no own c condition' notes c₁ value chosen more c' ihc _ ihb
      hfresh note hnote
    obtain ⟨rfl, -, hfresh⟩ := isFresh_command.1 hfresh
    rcases List.mem_append.1 hnote with hnote | hnote
    · exact (ihc (hfresh _ (by simp)) note hnote).imp_right fun h =>
        .command _ _ _ _ ⟨condition, by simp, h⟩
    · have hchosen : (if value then yes else no) ∈ [condition, yes, no] := by
        cases value <;> simp
      exact (ihb (hfresh _ hchosen) note hnote).imp_right fun h => .command _ _ _ _ ⟨_, hchosen, h⟩
  case language =>
    intro tags name tag body own c tag' notes c₁ language body' more c' iht ihb hfresh note hnote
    obtain ⟨rfl, -, hfresh⟩ := isFresh_command.1 hfresh
    rcases List.mem_append.1 hnote with hnote | hnote
    · exact (iht (hfresh _ (by simp)) note hnote).imp_right fun h =>
        .command _ _ _ _ ⟨tag, by simp, h⟩
    · exact (ihb (hfresh _ (by simp)) note hnote).imp .of_language fun h =>
        .command _ _ _ _ ⟨body, by simp, h⟩
  case command =>
    intro tags name kind ps own c ps' notes c₁ effect c' _ ih hrun hfresh note hnote
    obtain ⟨rfl, -, hfresh⟩ := isFresh_command.1 hfresh
    rcases List.mem_append.1 hnote with hnote | hnote
    · exact (ih hfresh note hnote).imp_right (.command _ _ _ _)
    · -- only one command has a footnote, and gives it the tags around
      cases Invocation.effects_of_run hrun with
      | footnote =>
        obtain rfl := Option.some.inj (Option.mem_toList.1 hnote)
        exact ⟨⟨_, _, rfl, rfl, Or.inl rfl⟩, hasNote_footnote _ _ _⟩
      | _ => cases hnote
  case cons =>
    intro tags i l c i' notes c₁ l' more c' ihi ihl hfresh note hnote
    rcases List.mem_append.1 hnote with hnote | hnote
    · exact (ihi (hfresh i (by simp)) note hnote).imp_right fun h => ⟨i, by simp, h⟩
    · refine (ihl (fun j hj => hfresh j (by simp [hj])) note hnote).imp_right ?_
      exact fun ⟨j, hj, h⟩ => ⟨j, by simp [hj], h⟩

/-- The footnote of a converted command is converted inside text with some tags. -/
theorem footnote?_remap {fonts : FontRegistry} (i : Inline) :
    (i.remap fonts tags).footnote? =
      i.footnote?.map (Footnote.remap fonts (i.tags.inherit tags)) := by
  rcases i with _ | _ | ⟨name, kind, ps, own, evaluation⟩
  · rfl
  · rfl
  · rw [remap_command]
    exact footnote?_remapEvaluation evaluation

/-- A footnote in converted text is the conversion of one in the text. -/
theorem mem_footnotes_remap {fonts : FontRegistry} {l : List Inline} {note : Footnote}
    (h : note ∈ footnotes (l.map (remap fonts tags))) :
    ∃ old ∈ footnotes l, ∃ tags', note = old.remap fonts tags' := by
  obtain ⟨j, hj, hnote⟩ := mem_gather.1 h
  obtain ⟨i', hi', hj⟩ := mem_nestedList.1 hj
  obtain ⟨i, hi, rfl⟩ := List.mem_map.1 hi'
  obtain ⟨k, hk, tags', rfl⟩ := mem_nested_remap hj
  rw [footnote?_remap] at hnote
  obtain ⟨old, hold, rfl⟩ := Option.map_eq_some_iff.1 hnote
  exact ⟨old, mem_gather.2 ⟨k, mem_nestedList.2 ⟨i, hi, hk⟩, hold⟩, _, rfl⟩

end Inline

/-! ## What is unread during a call -/

namespace Context

/-- What is unread in the second context is so in the first one, in the same document, with the same
    commands registered; and tags that are in effect stay so. -/
structure KeepsUnread (c c' : Context) : Prop where
  commands : c'.commands = c.commands
  tags : ∀ {x tags}, c.effectiveTags? x = some tags → c'.effectiveTags? x = some tags
  unread : ∀ {x d'}, c'.definition? x = some d' → ∀ content ∈ d'.kind.contents,
    content.stage = .unparsed →
      ∃ d, c.definition? x = some d ∧ d.document = d'.document ∧ content ∈ d.kind.contents

namespace KeepsUnread

theorem refl (c : Context) : KeepsUnread c c where
  commands := rfl
  tags h := h
  unread hd _ hcontent _ := ⟨_, hd, rfl, hcontent⟩

theorem trans (h : KeepsUnread c c₁) (h' : KeepsUnread c₁ c') : KeepsUnread c c' where
  commands := h'.commands.trans h.commands
  tags ht := h'.tags (h.tags ht)
  unread hd' content hcontent hunread := by
    obtain ⟨d₁, hd₁, hdocument₁, hcontent₁⟩ := h'.unread hd' content hcontent hunread
    obtain ⟨d, hd, hdocument, hcontent⟩ := h.unread hd₁ content hcontent₁ hunread
    exact ⟨d, hd, hdocument.trans hdocument₁, hcontent⟩

theorem atDepth (c : Context) (depth : Nat) : KeepsUnread c (c.atDepth depth) where
  commands := rfl
  tags ht := by rwa [effectiveTags?_atDepth]
  unread hd _ hcontent _ := ⟨_, hd, rfl, hcontent⟩

theorem of_extends (h : Extends c c') : KeepsUnread c c' where
  commands := h.commands
  tags ht := effectiveTags?_of_old (fun hd => (h.old hd).imp fun _ ⟨kind, hd', _⟩ => ⟨kind, hd'⟩) ht
  unread {x d'} hd' content hcontent hunread := by
    rcases hd : c.definition? x with _ | d
    · -- what is new has no text
      obtain ⟨value, references, rfl⟩ := h.new hd hd'
      cases hcontent
    · obtain ⟨references, kind, hd'', -, hk⟩ := h.old hd
      cases hd'.symm.trans hd''
      obtain ⟨before, hbefore, hadvances⟩ := hk.exists_content hcontent
      obtain rfl : content = before := hadvances.eq_of_not_isHandled fun h => h hunread
      exact ⟨d, rfl, rfl, hbefore⟩

theorem of_converts (h : Converts c c') : KeepsUnread c c' where
  commands := show c'.unresolved.commands = c.unresolved.commands by rw [h.written]
  tags ht := by rwa [h.effectiveTags?]
  unread {x d'} hd' content hcontent hunread := by
    obtain ⟨d, kind, hd, rfl, hk⟩ := h.of_definition? hd'
    refine ⟨d, hd, rfl, ?_⟩
    cases hk with
    | same => exact hcontent
    | fonts =>
      obtain ⟨before, hbefore, rfl⟩ := DefinitionKind.mem_contents_mapContents.1 hcontent
      rcases before with ⟨source, _ | inlines | inlines⟩
      · exact hbefore
      · cases hunread
      · cases hunread

end KeepsUnread

/-! ## Footnotes that are carried -/

/-- A definition of the document has an unread text with a footnote in it, and the tags are in
    effect at the definition. -/
def Annotates (c : Context) (document : Option DocumentId) (tags : Tags) : Prop :=
  ∃ x d, c.definition? x = some d ∧ d.document = document ∧ c.effectiveTags? x = some tags ∧
    ∃ content ∈ d.kind.contents, content.stage = .unparsed ∧
      ∃ written, Markup.parse c.commands content.source = .ok written ∧ ∃ i ∈ written, i.HasNote

/-- The footnote carries the tags in effect at such a definition in a context with `P`. -/
def Carried (P : Context → Prop) (document : Option DocumentId) (note : Footnote) : Prop :=
  ∃ c tags, P c ∧ c.Annotates document tags ∧ note.Carries tags

variable {P : Context → Prop}

theorem Carried.remap {document : Option DocumentId} {note : Footnote}
    (h : Carried P document note) (fonts : FontRegistry) (enclosing : Tags) :
    Carried P document (note.remap fonts enclosing) := by
  obtain ⟨c, tags, hc, hannotates, hcarries⟩ := h
  exact ⟨c, tags, hc, hannotates, hcarries.remap fonts enclosing⟩

/-- A text is executed on the way from `c₀`: it was unread there, and its footnotes carry the tags
    that were in effect. -/
theorem carried_of_execute {handle : DefinitionId → Engine Unit} {d : Definition}
    {content : Content} {written l : List Inline} {notes : List Footnote} (hP : P c₀)
    (hlinked : c₀.IsLinked) (hkeeps : KeepsUnread c₀ c) (hd : c.definition? x = some d)
    (hcontent : content ∈ d.kind.contents) (hunread : content.stage = .unparsed)
    (hwritten : Markup.parse c.commands content.source = .ok written)
    (htags : c.effectiveTags? x = some tags)
    (h : (Inline.executeList handle { owner := x, document := d.document } tags written).Gives c
      (.ok (l, notes)) c₁) : ∀ note ∈ notes, Carried P d.document note := by
  intro note hnote
  obtain ⟨hcarries, hwrites⟩ := (Inline.carries_rules _).inlines h
    (Markup.isFresh_of_mem_parse hwritten) note hnote
  obtain ⟨d₀, hd₀, hdocument, hcontent₀⟩ := hkeeps.unread hd content hcontent hunread
  obtain ⟨tags₀, htags₀⟩ :=
    Option.isSome_iff_exists.1 (hlinked.effectiveTags? (has_iff.2 ⟨d₀, hd₀⟩))
  obtain rfl : tags₀ = tags := Option.some.inj ((hkeeps.tags htags₀).symm.trans htags)
  rw [hkeeps.commands] at hwritten
  exact ⟨c₀, tags₀, hP, ⟨x, d₀, hd₀, hdocument, htags₀, content, hcontent₀, hunread, written,
    hwritten, hwrites⟩, hcarries⟩

/-! ## Passes -/

/-- The command pass lists no footnotes but such that carry tags that were in effect when the call
    began, however it ends. -/
theorem lists_carried (hP : P c₀) (hlinked : c₀.IsLinked) (n : Nat) (id : DefinitionId) :
    (Engine.handleCommands n id).Moves fun c c' => Extends c c' ∧
      (KeepsUnread c₀ c → Lists (Carried P) c c') := by
  have hlists := composes_lists (Carried P)
  have hcomposes : Engine.Composes fun c c' => Extends c c' ∧
      (KeepsUnread c₀ c → Lists (Carried P) c c') :=
    ⟨fun c => ⟨.refl c, fun _ => hlists.refl c⟩, fun h h' => ⟨h.1.trans h'.1, fun hc =>
      hlists.trans (h.2 hc) (h'.2 (hc.trans (.of_extends h.1)))⟩⟩
  have hpermits : Permits (fun _ => True) fun c c' => Extends c c' ∧
      (KeepsUnread c₀ c → Lists (Carried P) c c') :=
    (permits_extends.and permits_leavesNotes).mono hcomposes fun h => ⟨h.1, fun _ => h.2.lists⟩
  refine Engine.handleCommands_moves hcomposes
    (fun {c c₁} h => ⟨h.1.leave, fun hc => ?leave⟩)
    (fun {c id target d reference} hd hk hnone _ => ⟨.setTarget hd hk hnone _, fun _ => ?target⟩)
    (fun n hh c id d content r c' hd hcontent h => ?content) n id
  case leave => exact (h.2 (hc.trans (.atDepth c _))).atDepth
  case target =>
    exact ((LeavesNotes.addReference _ _ _).trans (.setTarget _ _ _)).lists
  case content =>
    refine Engine.resolveContent_moves_of_tags hcomposes
      (fun tags l => Inline.executeList_moves hpermits hh l (fun _ _ => Inline.uses_all) tags) hd
      (fun {written tags l notes c₁} hunread hwritten htags hl hmoves =>
        ⟨hmoves.1.handle hd hcontent hunread notes l, fun hc => ?_⟩) h
    exact lists_handle (hmoves.2 hc)
      (carried_of_execute hP hlinked hc hd hcontent hunread hwritten htags hl)

/-- The footnotes in texts are carried. -/
def CarriesNotes (P : Context → Prop) (c : Context) : Prop :=
  ∀ x d, c.definition? x = some d → ∀ note ∈ d.kind.notes, Carried P d.document note

/-- Texts are converted. -/
theorem CarriesNotes.of_converts (hc : CarriesNotes P c) (h : Converts c c') :
    CarriesNotes P c' := by
  intro x d' hd' note hnote
  obtain ⟨d, kind, hd, rfl, hk⟩ := h.of_definition? hd'
  cases hk with
  | same => exact hc x d hd note hnote
  | fonts =>
    obtain ⟨content', hcontent', hnote⟩ := DefinitionKind.mem_notes.1 hnote
    obtain ⟨content, hcontent, rfl⟩ := DefinitionKind.mem_contents_mapContents.1 hcontent'
    have hstood : ∀ note ∈ Inline.footnotes content.inlines, Carried P d.document note :=
      fun note hnote => hc x d hd note (DefinitionKind.mem_notes.2 ⟨content, hcontent, hnote⟩)
    rcases content with ⟨source, _ | inlines | inlines⟩
    · exact hstood note hnote
    · obtain ⟨old, hold, tags', rfl⟩ := Inline.mem_footnotes_remap hnote
      exact (hstood old hold).remap _ _
    · exact hstood note hnote

/-- The font pass lists no footnotes but such that are carried, if those in texts are, however it
    ends. -/
theorem lists_converted (n : Nat) (id : DefinitionId) :
    (Engine.handleFonts n id).Moves fun c c' => Converts c c' ∧
      (CarriesNotes P c → Lists (Carried P) c c') := by
  have hlists := composes_lists (Carried P)
  refine Engine.handleFonts_moves
    ⟨fun c => ⟨.refl c, fun _ => hlists.refl c⟩, fun h h' => ⟨h.1.trans h'.1, fun hc =>
      hlists.trans (h.2 hc) (h'.2 (hc.of_converts h.1))⟩⟩
    (fun h => ⟨h.1.leave, fun hc => (h.2 hc).atDepth⟩)
    (fun {c c₁ id d content l r c'} hd hcontent hstage hmoves h => ?_) n id
  refine ⟨hmoves.1.trans (converts_convertContent h), fun hc => hlists.trans (hmoves.2 hc) ?_⟩
  obtain ⟨tags, d₁, warnings, -, hd₁, -, rfl⟩ := Engine.gives_convertContent h
  obtain ⟨kind, hd₁', -⟩ := hmoves.1.definition hd
  obtain rfl : d₁ = { d with kind } := Option.some.inj (hd₁.symm.trans hd₁')
  have hwritten : Lists (Carried P) c₁ ((c₁.warnAll warnings).modifyDefinition id fun d =>
      { d with kind := d.kind.mapContents fun content =>
        content.resolveFonts (Inline.remap c₁.fonts tags) }) :=
    fun document _ hnote => Or.inl (by cases document <;> exact hnote)
  refine hlists.trans hwritten (lists_rerouteFootnotes _ fun note hnote => ?_)
  rw [Inline.remapList_eq] at hnote
  obtain ⟨old, hold, tags', rfl⟩ := Inline.mem_footnotes_remap hnote
  rw [← DefinitionKind.notes_of_mem hcontent hstage] at hold
  exact (hc id d hd old hold).remap _ _

/-! ## Reachable contexts -/

/-- All footnotes in the lists are carried. -/
def AllCarried (P : Context → Prop) (c : Context) : Prop :=
  ∀ document, ∀ note ∈ c.footnotes document, Carried P document note

theorem AllCarried.of_lists (h : AllCarried P c) (hl : Lists (Carried P) c c') :
    AllCarried P c' :=
  fun document note hnote => (hl document note hnote).elim (h document note) id

/-- The footnotes in texts are in the lists. -/
theorem AllCarried.carriesNotes (h : AllCarried P c) (hnoted : c.IsNoted) : CarriesNotes P c :=
  fun _ d hd note hnote => h d.document note (hnoted.listed hd note hnote)

/-- A call leaves footnotes in the lists that are carried. -/
theorem AllCarried.of_ends {call : Call} {r : Except Error Unit} (h : AllCarried P c) (hP : P c)
    (hlinked : c.IsLinked) (hnoted : c.IsNoted) (hends : call.Ends c r c') : AllCarried P c' := by
  suffices hmoves : KeepsUnread c c' ∧ c'.IsNoted ∧ AllCarried P c' from hmoves.2.2
  refine hends.moves
    (R := fun c₁ c' => KeepsUnread c c₁ ∧ c₁.IsNoted ∧ AllCarried P c₁ →
      KeepsUnread c c' ∧ c'.IsNoted ∧ AllCarried P c')
    ⟨fun _ hc => hc, fun h h' hc => h' (h hc)⟩ (fun n id c₁ r c' h hc => ?commands)
    (fun n id c₁ r c' h hc => ?fonts) ⟨.refl c, hnoted, h⟩
  case commands =>
    obtain ⟨hextends, hlists⟩ := lists_carried hP hlinked n id c₁ r c' h
    exact ⟨hc.1.trans (.of_extends hextends), isNoted_handleCommands n id c₁ r c' h hc.2.1,
      hc.2.2.of_lists (hlists hc.1)⟩
  case fonts =>
    obtain ⟨hconverts, hlists⟩ := lists_converted n id c₁ r c' h
    exact ⟨hc.1.trans (.of_converts hconverts), (isNoted_handleFonts n id c₁ r c' h).2 hc.2.1,
      hc.2.2.of_lists (hlists (hc.2.2.carriesNotes hc.2.1))⟩

/-- If every call starts from a context with `P` that edits and calls lead to, all footnotes are
    carried. -/
theorem allCarried_of_reached (h : c.Reached Edit.AddsNoNotes fun c _ _ => c.Arises ∧ P c) :
    AllCarried P c := by
  induction h with
  | new settings =>
    intro document note hnote
    cases document <;> cases hnote
  | @edit c e _ _ ih =>
    intro document note hnote
    rw [footnotes, e.footnoteList_apply] at hnote
    exact ih document note hnote
  | @call c c' call r hc hP hends ih =>
    have hnoted : c.IsNoted := hc.isNoted fun _ _ he => he
    exact ih.of_ends hP.2 hP.1.isLinked hnoted hends

end Context

/-- **A footnote takes the tags of its owner with it.**  Let every call start from a context with
    `P` that has come about by calls and by edits that name what is there, and add no definitions
    by hand but new ones.  Then a footnote in the list of a document carries the tags that were in
    effect, in one of these contexts, at a definition of the document whose unread text had a
    footnote in it.  The footnote renders alike, in Unicode, inside any two tags that agree on what
    those left open: the font if they name none, and whether text is transliterated if they name no
    language.  So where both are set it renders alike in all places, before and after the font
    pass. -/
theorem footnotes_keep_tags {P : Context → Prop}
    (h : c.Reached Edit.AddsNoNotes fun c _ _ => c.Arises ∧ P c) {document : Option DocumentId}
    {note : Footnote} (hnote : note ∈ c.footnotes document) :
    ∃ c₁ tags, P c₁ ∧ c₁.Annotates document tags ∧ note.Carries tags ∧ ∀ place place' : Tags,
      (tags.font = .inherit → place.fontName? = place'.fontName?) →
      (tags.language = none → place.isTransliterated = place'.isTransliterated) →
      c.normalizedInlineText? place note.body = c.normalizedInlineText? place' note.body := by
  obtain ⟨c₁, tags, hP, hannotates, hcarries⟩ := allCarried_of_reached h document note hnote
  exact ⟨c₁, tags, hP, hannotates, hcarries, fun place place' hfont hlanguage =>
    hcarries.normalizedInlineText? hfont hlanguage c⟩

/-- Nested footnotes of a version in a legacy font, before and after the font pass. -/
theorem footnotes_keep_tags_of_font :
    ∃ c₀ c c' : Context, c₀.Arises ∧ (Call.commands ⟨1⟩).Ends c₀ (.ok ()) c ∧
      (Call.fonts ⟨1⟩).Ends c (.ok ()) c' ∧
      (c.footnotes (some ⟨0⟩)).map (fun note => c.inlineText? note.body) =
        [some "z", some "y[1]"] ∧
      (c'.footnotes (some ⟨0⟩)).map (fun note => c'.inlineText? note.body) =
        [some "ⲍ", some "ⲏ[1]"] ∧
      ∀ place place' : Tags,
        (∀ note ∈ c.footnotes (some ⟨0⟩),
          c.normalizedInlineText? place note.body = c.normalizedInlineText? place' note.body) ∧
        ∀ note ∈ c'.footnotes (some ⟨0⟩),
          c'.normalizedInlineText? place note.body = c'.normalizedInlineText? place' note.body := by
  let edits := [Edit.addDocument "d" "D",
    .addVersion ⟨0⟩ (.ofKnown .coptic) (some "CS Avva Shenouda"),
    .addStanza ⟨0⟩ none "x\\footnote\x7by\\footnote\x7bz\x7d\x7d"]
  let c₀ := edits.foldl Edit.apply (.new {})
  let c := (Call.commands ⟨1⟩).run 4 c₀
  let c' := (Call.fonts ⟨1⟩).run 4 c
  let P : Context → Prop := fun c => ∀ i : Fin c.definitions.size,
    ∀ tags ∈ c.effectiveTags? ⟨i⟩, tags.font ≠ .inherit ∧ tags.language ≠ none
  have hcommands : (Call.commands ⟨1⟩).Ends c₀ (.ok ()) c := Call.ends_run (by decide +kernel)
  have hfonts : (Call.fonts ⟨1⟩).Ends c (.ok ()) c' := Call.ends_run (by decide +kernel)
  have harises : c₀.Arises := (Reached.new {}).edits (by decide +kernel)
  have h₀ : c₀.Reached Edit.AddsNoNotes fun c _ _ => c.Arises ∧ P c :=
    (Reached.new {}).edits (by decide +kernel)
  have h : c.Reached Edit.AddsNoNotes fun c _ _ => c.Arises ∧ P c :=
    .call h₀ ⟨harises, by decide +kernel⟩ hcommands
  have h' : c'.Reached Edit.AddsNoNotes fun c _ _ => c.Arises ∧ P c :=
    .call h ⟨.call harises trivial hcommands, by decide +kernel⟩ hfonts
  have hkeeps : ∀ {c : Context}, (c.Reached Edit.AddsNoNotes fun c _ _ => c.Arises ∧ P c) →
      ∀ place place' : Tags, ∀ note ∈ c.footnotes (some ⟨0⟩),
        c.normalizedInlineText? place note.body = c.normalizedInlineText? place' note.body := by
    intro c h place place' note hnote
    obtain ⟨c₁, tags, hP, ⟨x, d, hd, -, htags, -⟩, -, hkeeps⟩ := footnotes_keep_tags h hnote
    have hset := hP ⟨x.index, has_iff.2 ⟨d, hd⟩⟩ tags htags
    exact hkeeps place place' (absurd · hset.1) (absurd · hset.2)
  exact ⟨c₀, c, c', harises, hcommands, hfonts, by decide +kernel, by decide +kernel,
    fun place place' => ⟨hkeeps h place place', hkeeps h' place place'⟩⟩

/-- **A footnote does not take with it that its owner names no font**: inside text in a legacy font
    it is converted, before the font pass and after it. -/
theorem not_footnotes_keep_tags_of_fontless :
    ∃ c c' : Context, c.Arises ∧ c'.Arises ∧
      (∃ note ∈ c.footnotes (some ⟨0⟩), c.normalizedInlineText? .unset note.body = some "amen" ∧
        c.normalizedInlineText? { font := .named "CS Avva Shenouda" } note.body = some "ⲁⲙⲉⲛ") ∧
      ∃ note ∈ c'.footnotes (some ⟨0⟩), c'.normalizedInlineText? .unset note.body = some "amen" ∧
        c'.normalizedInlineText? { font := .named "CS Avva Shenouda" } note.body = some "ⲁⲙⲉⲛ" := by
  let c₀ := [Edit.addDocument "d" "D", .addVersion ⟨0⟩ (.ofKnown .english) none,
    .addStanza ⟨0⟩ none "x\\footnote\x7bamen\x7d"].foldl Edit.apply (.new {})
  let c := (Call.commands ⟨1⟩).run 4 c₀
  let c' := (Call.fonts ⟨1⟩).run 4 c
  have h₀ : c₀.Arises := (Reached.new {}).edits (by decide +kernel)
  have h : c.Arises := .call h₀ trivial (Call.ends_run (by decide +kernel))
  have h' : c'.Arises := .call h trivial (Call.ends_run (by decide +kernel))
  exact ⟨c, c', h, h', by decide +kernel, by decide +kernel⟩

end Rubric
