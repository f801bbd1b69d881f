/-
  Rubric — text without commands.

  Braces and bars are literal outside the parameters of a command, and so is a
  backslash without a name behind it.

  * `Inline.literally`: what a text without names is read as;
    `Markup.parse_of_isQuiet`;
  * `FontRegistry.draw`: what a font draws for one character;
    `FontRegistry.convert_eq`: a text is converted character by character;
  * `gives_commandPass_of_isQuiet`, `gives_fontPass_of_literal`: the passes of a
    text without commands;
  * **`resolves_of_isQuiet`**: such a text stands for itself, and for what its
    font draws once fonts are converted.
-/
import Rubric.Proofs.Canonical
import Rubric.Proofs.Echo
import Rubric.Proofs.Linked

namespace Rubric

open Context Markup

variable {c : Context} {id : DefinitionId} {d : Definition} {content : Content} {tags : Tags}

/-! ## Reading and executing -/

namespace Inline

/-- What a text without names is read as. -/
def literally (text : String) : List Inline :=
  if text = "" then [] else [.text text]

variable {text : String}

theorem eq_text_of_mem_literally {i : Inline} (h : i ∈ literally text) : i = .text text := by
  unfold literally at h
  split at h
  · cases h
  · exact List.mem_singleton.1 h

/-- Nothing in it is executed. -/
theorem executeList_literally (handle : DefinitionId → Engine Unit) (scope : Scope) (tags : Tags)
    (text : String) :
    (executeList handle scope tags (literally text)).Gives c (.ok (literally text, [])) c := by
  unfold literally
  split <;> rfl

theorem targets_literally (text : String) : targets (literally text) = [] := by
  unfold literally
  split <;> rfl

theorem footnotes_remapList_literally (fonts : FontRegistry) (tags : Tags) (text : String) :
    footnotes (remapList fonts tags (literally text)) = [] := by
  unfold literally
  split <;> rfl

end Inline

open Inline

/-- A text in which no name stands behind a backslash is read as literal text, whatever else is in
    it. -/
theorem Markup.parse_of_isQuiet {commands : Commands} {source : String}
    (h : IsQuiet source.toList) : parse commands source = .ok (literally source) := by
  have hcanonical : IsCanonical commands (literally source) := by
    refine .intro (fun i hi => ?_) ?_
    · rw [eq_text_of_mem_literally hi]
      refine .run (fun hempty => ?_) h
      rw [hempty] at hi
      cases hi
    · unfold literally
      split
      · exact .nil
      · exact .singleton _
  have hwritten : String.join (sources (literally source)) = source := by
    unfold literally
    split
    · rename_i hempty
      exact hempty.symm
    · simp [text, sources, String.join]
  have hparse := parse_of_isCanonical hcanonical
  rwa [hwritten] at hparse

/-! ## Rendering -/

namespace FontRegistry

/-- What the named font draws for one typed character; one that is not registered draws each
    character as it is. -/
def draw (fonts : FontRegistry) (name : String) (ch : Char) : List Char :=
  ((fonts.get? name).map fun font => font.draw ch).getD [ch]

/-- A text is converted character by character. -/
theorem convert_eq (fonts : FontRegistry) (name text : String) :
    fonts.convert name text = String.ofList (text.toList.flatMap (fonts.draw name)) := by
  have hsame : String.ofList (text.toList.flatMap fun ch => [ch]) = text := by simp
  unfold convert draw
  rcases fonts.get? name with _ | ⟨own, _ | map⟩
  · exact hsame.symm
  · exact hsame.symm
  · rfl

end FontRegistry

namespace Inline

variable (f : DefinitionId → Option (List Segment)) (fonts : FontRegistry) (tags : Tags)

theorem plain_segments_literally (text : String) :
    (segmentsList f tags (literally text)).map Segment.plain = some text := by
  unfold literally
  split
  · rename_i hempty
    rw [hempty]
    rfl
  · rw [segmentsList_singleton, Inline.text, segments_run]
    simp [Segment.plain, String.join]

/-- Converted literal text is what is drawn for it. -/
theorem plain_segments_remap_literally (text : String) :
    (segmentsList f tags ((literally text).map (remap fonts tags))).map Segment.plain =
      some (fonts.normalizeSegment { text, font := tags.typedFont? }) := by
  unfold literally
  split
  · rename_i hempty
    rw [hempty]
    rcases tags.typedFont? with _ | font
    · rfl
    · have hnothing : fonts.convert font "" = "" := fonts.convert_eq font ""
      exact congrArg some hnothing.symm
  · rw [List.map_cons, List.map_nil, segmentsList_singleton, Inline.text, remap,
      FontRegistry.remapRun, segments_run, Tags.unset_inherit]
    simp [Segment.plain, String.join]

end Inline

/-! ## Stanzas and paragraphs -/

namespace DefinitionKind

variable {kind : DefinitionKind}

/-- A stanza or a paragraph with the content. -/
def HasText (kind : DefinitionKind) (content : Content) : Prop :=
  kind = .stanza content ∨ kind = .paragraph content

theorem HasText.mapContents (h : kind.HasText content) (f : Content → Content) :
    (kind.mapContents f).HasText (f content) := by
  rcases h with rfl | rfl
  · exact Or.inl rfl
  · exact Or.inr rfl

theorem HasText.segments (h : kind.HasText content) (f : DefinitionId → Option (List Segment))
    (tags : Tags) : kind.segments f (some tags) = segmentsList f tags content.inlines := by
  rcases h with rfl | rfl <;> exact content.segments_eq f tags

end DefinitionKind

namespace Context

/-- A text of which nothing stands for other definitions. -/
theorem text?_of_hasText {s : String} (hd : c.definition? id = some d)
    (htext : d.kind.HasText content) (htags : c.effectiveTags? id = some tags)
    (h : ∀ f, (segmentsList f tags content.inlines).map Segment.plain = some s) :
    c.text? id = some s := by
  obtain ⟨segments, hsegments, hs⟩ := Option.map_eq_some_iff.1 (h (c.segmentsWithin 0))
  have hwithin : c.segmentsWithin 1 id = some segments := by
    rw [segmentsWithin_succ, hd, htags, Option.bind_some, htext.segments, hsegments]
  rw [text?, segments?_of_within hwithin, Option.map_some, hs]

/-- A footnote list is changed by what changes nothing. -/
theorem modifyFootnotes_of_eq (document : Option DocumentId) {f : FootnoteList → FootnoteList}
    (hf : ∀ list, f list = list) : c.modifyFootnotes document f = c := by
  rcases document with _ | document
  · simp only [modifyFootnotes, hf]
  · have hsame : (c.documents.modify document.index fun d =>
        { d with footnotes := f d.footnotes }) = c.documents := by
      have hmap := map_modify_of_eq (g := id)
        (f := fun d : Document => { d with footnotes := f d.footnotes })
        (fun d => by rw [hf]) c.documents document.index
      rwa [Array.map_id, Array.map_id] at hmap
    simp only [modifyFootnotes, modifyDocument, hsame]

/-- A content is changed: the tags in effect stay. -/
theorem effectiveTags?_modifyContent (f : Content → Content)
    (hf : ∀ content, (f content).source = content.source) (x : DefinitionId) :
    (c.modifyContent id f).effectiveTags? x = c.effectiveTags? x := by
  rw [modifyContent_eq]
  exact effectiveTags?_of_unresolved_eq
    (unresolved_modifyKind (DefinitionKind.unresolved_mapContents hf)) x

end Context

namespace Engine

variable {handle : DefinitionId → Engine Unit}

/-- Without a depth limit, a nested pass succeeds if it does one level deeper. -/
theorem gives_nested_of_unlimited {frame : Frame} {x : Engine Unit} {c' : Context}
    (hlimit : c.settings.depthLimit = none)
    (h : x.Gives (c.atDepth (c.depth + 1)) (.ok ()) (c'.atDepth (c'.depth + 1))) :
    (nested frame x).Gives c (.ok ()) c' := by
  have hopen : c.refusal? = none := refusal?_eq_none.2 (by simp [hlimit])
  rw [Gives, answer?_nested_of_open hopen, h]
  rfl

/-- The command pass of a text without commands. -/
theorem gives_commandPass_of_isQuiet (hd : c.definition? id = some d)
    (htext : d.kind.HasText content) (htags : c.effectiveTags? id = some tags)
    (hunparsed : content.stage = .unparsed) (hquiet : IsQuiet content.source.toList) :
    (commandPass handle id).Gives c (.ok ())
      (c.modifyContent id fun text => text.resolveCommands (literally content.source)) := by
  have hroute : c.routeFootnotes d.document [] = c :=
    modifyFootnotes_of_eq _ fun list => by simp
  have hsource : (resolveSource handle id content.source).Gives c
      (.ok (literally content.source)) c := by
    rw [resolveSource, gives_get_bind, parse_of_isQuiet hquiet, ofExcept, pure_bind, htags,
      gives_ofOption_bind]
    refine ⟨tags, rfl, ?_⟩
    rw [gives_definition_bind]
    refine ⟨d, hd, gives_bind_ok.2 ⟨_, c, executeList_literally .., ?_⟩⟩
    rw [gives_modify_bind, hroute]
    exact gives_pure.2 ⟨rfl, rfl⟩
  have hresolved := gives_resolveContent_of_source hunparsed hsource
  rw [commandPass, gives_definition_bind]
  refine ⟨d, hd, ?_⟩
  rcases htext with hk | hk <;> rw [hk] <;> exact hresolved

/-- The font pass of a text without commands. -/
theorem gives_fontPass_of_literal (handle : DefinitionId → Engine Unit) {text : String}
    (hd : c.definition? id = some d) (htext : d.kind.HasText content)
    (htags : c.effectiveTags? id = some tags)
    (hstage : content.stage = .commandsResolved (literally text)) :
    ∃ warnings, (fontPass handle id).Gives c (.ok ())
      ((c.warnAll warnings).modifyContent id fun text =>
        text.resolveFonts (remap c.fonts tags)) := by
  have hreroute : ∀ c' : Context, c'.rerouteFootnotes d.document [] = c' :=
    fun c' => modifyFootnotes_of_eq _ fun list => rfl
  obtain ⟨warnings, hconvert⟩ : ∃ warnings, (convertContent id (literally text)).Gives c (.ok ())
      ((c.warnAll warnings).modifyContent id fun text =>
        text.resolveFonts (remap c.fonts tags)) := by
    refine ⟨(typedFontsList tags (literally text)).filterMap c.fonts.warning?, ?_⟩
    rw [convertContent, gives_get_bind, htags, gives_ofOption_bind]
    refine ⟨tags, rfl, ?_⟩
    rw [gives_definition_bind]
    refine ⟨d, hd, gives_set.2 ⟨rfl, ?_⟩⟩
    have hfonts : ∀ warnings, (c.warnAll warnings).fonts = c.fonts := fun _ => rfl
    rw [footnotes_remapList_literally, hreroute, hfonts]
  have hresolved : (convert (fun ids => ids.forM handle) id content).Gives c (.ok ())
      ((c.warnAll warnings).modifyContent id fun text =>
        text.resolveFonts (remap c.fonts tags)) := by
    rw [convert, hstage]
    dsimp only
    rw [targets_literally]
    exact gives_bind_ok.2 ⟨_, c, gives_pure.2 ⟨rfl, rfl⟩, hconvert⟩
  refine ⟨warnings, ?_⟩
  rw [fontPass, gives_definition_bind]
  refine ⟨d, hd, ?_⟩
  rcases htext with hk | hk <;> rw [hk] <;> exact hresolved

end Engine

/-! ## Both passes -/

open Engine

theorem ends_commands_of_isQuiet (hlimit : c.settings.depthLimit = none)
    (hd : c.definition? id = some d) (htext : d.kind.HasText content)
    (htags : c.effectiveTags? id = some tags) (hunparsed : content.stage = .unparsed)
    (hquiet : IsQuiet content.source.toList) :
    (Call.commands id).Ends c (.ok ())
      (c.modifyContent id fun text => text.resolveCommands (literally content.source)) := by
  refine ⟨1, ?_⟩
  rw [Call.pass, handleCommands, gives_definition_bind]
  refine ⟨d, hd, gives_nested_of_unlimited hlimit ?_⟩
  exact gives_commandPass_of_isQuiet hd htext ((effectiveTags?_atDepth ..).trans htags) hunparsed
    hquiet

theorem ends_fonts_of_literal {text : String} (hlimit : c.settings.depthLimit = none)
    (hd : c.definition? id = some d) (htext : d.kind.HasText content)
    (htags : c.effectiveTags? id = some tags)
    (hstage : content.stage = .commandsResolved (literally text)) :
    ∃ warnings, (Call.fonts id).Ends c (.ok ())
      ((c.warnAll warnings).modifyContent id fun text =>
        text.resolveFonts (remap c.fonts tags)) := by
  obtain ⟨warnings, hpass⟩ := gives_fontPass_of_literal (handleFonts 0)
    (c := c.atDepth (c.depth + 1)) hd htext ((effectiveTags?_atDepth ..).trans htags) hstage
  refine ⟨warnings, 1, ?_⟩
  rw [Call.pass, handleFonts, gives_definition_bind]
  exact ⟨d, hd, gives_nested_of_unlimited hlimit hpass⟩

/-- **A text without commands stands for itself.**  Without a depth limit, the command pass of an
    unread stanza or paragraph in whose source no name stands behind a backslash succeeds and
    changes nothing but the stage of that text, which still is its source.  The font pass succeeds
    then: the text becomes what the font in effect draws for each character, if a font is in effect
    and the language in effect is not in the script of another one; otherwise it stays.  What is
    added in the session finds its parent, and what is added by hand is not resolved and has no
    parts in other documents (`Edit.Applies`). -/
theorem resolves_of_isQuiet {settings : Settings} {events : List Event}
    (h : Session (.new settings) events c) (hlimit : c.settings.depthLimit = none)
    (hd : c.definition? id = some d) (htext : d.kind.HasText content)
    (hunparsed : content.stage = .unparsed) (hquiet : IsQuiet content.source.toList) :
    ∃ tags inlines c₁ c₂, c.effectiveTags? id = some tags ∧
      c₁ = c.modifyContent id (fun content => content.resolveCommands inlines) ∧
      (Call.commands id).Ends c (.ok ()) c₁ ∧ c₁.text? id = some content.source ∧
      (Call.fonts id).Ends c₁ (.ok ()) c₂ ∧
      (∀ font, tags.fontName? = some font → tags.isTransliterated = false →
        c₂.text? id = some (String.ofList (content.source.toList.flatMap (c.fonts.draw font)))) ∧
      (tags.fontName? = none ∨ tags.isTransliterated = true →
        c₂.text? id = some content.source) := by
  obtain ⟨tags, htags⟩ := Option.isSome_iff_exists.1
    (h.isLinked.effectiveTags? (has_iff.2 ⟨d, hd⟩))
  -- the text once its commands are handled
  obtain ⟨c₁, hc₁⟩ : ∃ c₁, c₁ = c.modifyContent id fun text =>
    text.resolveCommands (literally content.source) := ⟨_, rfl⟩
  have hcommands : (Call.commands id).Ends c (.ok ()) c₁ :=
    hc₁ ▸ ends_commands_of_isQuiet hlimit hd htext htags hunparsed hquiet
  have hd₁ := hc₁ ▸ definition?_modifyContent hd fun text =>
    text.resolveCommands (literally content.source)
  have htext₁ := htext.mapContents fun text => text.resolveCommands (literally content.source)
  have htags₁ : c₁.effectiveTags? id = some tags := by
    rw [hc₁, ← htags]
    exact effectiveTags?_modifyContent (fun text => text.resolveCommands _) (fun _ => rfl) id
  have hsame : c₁.settings = c.settings ∧ c₁.fonts = c.fonts := by rw [hc₁]; exact ⟨rfl, rfl⟩
  have hread : c₁.text? id = some content.source := text?_of_hasText hd₁ htext₁ htags₁ fun f =>
    plain_segments_literally f tags content.source
  -- the text once its fonts are converted
  obtain ⟨warnings, hfonts⟩ :=
    ends_fonts_of_literal (hsame.1 ▸ hlimit) hd₁ htext₁ htags₁ rfl
  have hd₂ := definition?_modifyContent (c := c₁.warnAll warnings) hd₁
    fun text => text.resolveFonts (remap c₁.fonts tags)
  have htags₂ : ((c₁.warnAll warnings).modifyContent id fun text =>
      text.resolveFonts (remap c₁.fonts tags)).effectiveTags? id = some tags := by
    have hwarned : (c₁.warnAll warnings).effectiveTags? = c₁.effectiveTags? :=
      effectiveTags?_of_definitions_eq rfl
    rw [effectiveTags?_modifyContent _ fun text => text.source_resolveFonts _, hwarned, htags₁]
  have hdrawn := text?_of_hasText hd₂ (htext₁.mapContents _) htags₂ fun f =>
    plain_segments_remap_literally f c₁.fonts tags content.source
  refine ⟨tags, literally content.source, c₁, _, htags, hc₁, hcommands, hread, hfonts,
    fun font hfont hscript => ?_, fun hnone => ?_⟩
  · rw [hdrawn, hsame.2, Tags.typedFont?, hscript, if_neg (by simp), hfont,
      ← FontRegistry.convert_eq]
    rfl
  · have htyped : tags.typedFont? = none := by
      rcases hnone with hfont | hscript
      · simp [Tags.typedFont?, hfont]
      · simp [Tags.typedFont?, hscript]
    rw [hdrawn, htyped]
    rfl

/-- A brace that is not closed, a bar, backslashes and a letter that the font does not draw: in a
    stanza that has its font from two sections above it, and in a paragraph whose language is in the
    script of another one. -/
theorem resolves_of_isQuiet_of_signs : ∃ events, ∃ c s₁ s₂ p₁ p₂ : Context,
    Session (.new {}) events c ∧ IsQuiet "x\\\x7b|\\\\ ж\\".toList ∧
    (Call.commands ⟨2⟩).Ends c (.ok ()) s₁ ∧ s₁.text? ⟨2⟩ = some "x\\\x7b|\\\\ ж\\" ∧
    (Call.fonts ⟨2⟩).Ends s₁ (.ok ()) s₂ ∧ s₂.text? ⟨2⟩ = some "ⲝ\\\x7b|\\\\ ж\\" ∧
    (Call.commands ⟨3⟩).Ends c (.ok ()) p₁ ∧ (Call.fonts ⟨3⟩).Ends p₁ (.ok ()) p₂ ∧
    p₂.text? ⟨3⟩ = some "x\\\x7b|\\\\ ж\\" := by
  let edits := [Edit.addDocument "d" "D",
    .addVersion ⟨0⟩ (.ofKnown .coptic) (some "CS Avva Shenouda"), .addSection ⟨0⟩ none none,
    .addStanza ⟨1⟩ none "x\\\x7b|\\\\ ж\\", .addParagraph ⟨1⟩ none "x\\\x7b|\\\\ ж\\",
    .setLanguage ⟨3⟩ ((Language.ofKnown .coptic).withSecondary (.ofKnown .english))]
  let c := edits.foldl Edit.apply (.new {})
  have h : Session (.new {}) ([] ++ edits.map .edit) c := .edits .start (by decide +kernel)
  have hquiet : IsQuiet "x\\\x7b|\\\\ ж\\".toList := by
    unfold IsQuiet
    decide +kernel
  have hstanza : c.definition? ⟨2⟩ = some
      { parent := some ⟨1⟩, document := some ⟨0⟩,
        kind := .stanza (.ofSource "x\\\x7b|\\\\ ж\\") } := by rfl
  obtain ⟨tags, _, s₁, s₂, htags, -, hs₁, hread, hs₂, hdrawn, -⟩ :=
    resolves_of_isQuiet h rfl hstanza (Or.inl rfl) rfl hquiet
  obtain rfl : tags = { language := some (.ofKnown .coptic), font := .named "CS Avva Shenouda" } :=
    Option.some.inj (htags.symm.trans (by decide +kernel))
  have hparagraph : c.definition? ⟨3⟩ = some
      { parent := some ⟨1⟩
        document := some ⟨0⟩
        language := some ((Language.ofKnown .coptic).withSecondary (.ofKnown .english))
        kind := .paragraph (.ofSource "x\\\x7b|\\\\ ж\\") } := by rfl
  obtain ⟨tags, _, p₁, p₂, htags, -, hp₁, -, hp₂, -, hkept⟩ :=
    resolves_of_isQuiet h rfl hparagraph (Or.inr rfl) rfl hquiet
  obtain rfl : tags =
      { language := some ((Language.ofKnown .coptic).withSecondary (.ofKnown .english))
        font := .named "CS Avva Shenouda" } :=
    Option.some.inj (htags.symm.trans (by decide +kernel))
  refine ⟨_, c, s₁, s₂, p₁, p₂, h, hquiet, hs₁, hread, hs₂, ?_, hp₁, hp₂, hkept (Or.inr rfl)⟩
  rw [hdrawn _ rfl rfl]
  decide +kernel

end Rubric
