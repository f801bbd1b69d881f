/-
  Rubric — what the font pass does to a node that it fails at, and to footnotes.

  The font pass handles the definitions that the commands of a text stand for
  before it converts the text.  These may lead back to the text.  But a text that
  a pass under way is waited for by cannot be converted in the meantime: it would
  have to wait for that pass itself.

  * `Context.Awaits`: what is to be handled before a definition is, or after it;
  * `Protects id c c'`: texts that wait for `id` are the same in both contexts;
    **`protects_handleFonts`**: the font pass of `id` leaves them alone;
  * `Context.Renews`: a footnote is made by a text that is converted;
  * **`frame_of_fonts`**: all that a call for the fonts of a definition changes.
-/
import Rubric.Proofs.Failure
import Rubric.Proofs.Notes
import Rubric.Proofs.Rest

namespace Rubric

open Context

variable {c c' c₁ c₂ : Context} {id x y : DefinitionId}

/-! ## Texts that wait -/

namespace Context

/-- A text of the first definition is still to be converted, and has a command that stands for
    the second one. -/
def TextAwaits (c : Context) (x y : DefinitionId) : Prop :=
  ∃ d content l, c.definition? x = some d ∧ content ∈ d.kind.contents ∧
    content.stage = .commandsResolved l ∧ y ∈ Inline.targets l

/-- The font pass of the first definition goes on to the second one. -/
def Awaits (c : Context) (x y : DefinitionId) : Prop :=
  c.TextAwaits x y ∨ ∃ d, c.definition? x = some d ∧ y ∈ d.kind.parts

/-- The font pass of the first definition leads to that of the second one. -/
def Waits (c : Context) : DefinitionId → DefinitionId → Prop :=
  Relation.ReflTransGen c.Awaits

theorem TextAwaits.of_eq (h : c.TextAwaits x y) (he : c'.definition? x = c.definition? x) :
    c'.TextAwaits x y := by
  obtain ⟨d, content, l, hd, hmem, hstage, hy⟩ := h
  exact ⟨d, content, l, he.trans hd, hmem, hstage, hy⟩

/-- What rests leads to nothing but what rests. -/
theorem RestsWithin.awaits {n : Nat} (h : c.RestsWithin .fonts n x) (hxy : c.Awaits x y) :
    ∃ m, c.RestsWithin .fonts m y := by
  cases n with
  | zero => exact h.elim
  | succ n =>
    obtain ⟨d, hd, hdone, hparts⟩ := h
    rcases hxy with ⟨d', content, l, hd', hmem, hstage, -⟩ | ⟨d', hd', hy⟩
    · cases hd.symm.trans hd'
      obtain ⟨inlines, hinlines⟩ := hdone.contents content hmem
      cases hstage.symm.trans hinlines
    · cases hd.symm.trans hd'
      exact ⟨n, hparts y hy⟩

theorem RestsWithin.waits {n : Nat} (h : c.RestsWithin .fonts n x) (hxy : c.Waits x y) :
    ∃ m, c.RestsWithin .fonts m y := by
  induction hxy with
  | refl => exact ⟨n, h⟩
  | tail _ hlink ih =>
    obtain ⟨m, hm⟩ := ih
    exact hm.awaits hlink

/-- No text of what rests is still to be converted. -/
theorem RestsWithin.not_textAwaits {n : Nat} (h : c.RestsWithin .fonts n x) :
    ¬ c.TextAwaits x y := by
  rintro ⟨d', content, l, hd', hmem, hstage, -⟩
  cases n with
  | zero => exact h
  | succ n =>
    obtain ⟨d, hd, hdone, -⟩ := h
    cases hd.symm.trans hd'
    obtain ⟨inlines, hinlines⟩ := hdone.contents content hmem
    cases hstage.symm.trans hinlines

end Context

/-- Parts of a definition are the same after a conversion. -/
theorem DefinitionKind.Converts.parts_eq {fonts : FontRegistry} {effective : Option Tags}
    {kind kind' : DefinitionKind} (h : kind.Converts fonts effective kind') :
    kind'.parts = kind.parts := by
  cases h with
  | same => rfl
  | fonts => rw [DefinitionKind.parts, children_mapContents, target?_mapContents,
      DefinitionKind.parts]

/-! ## What is protected -/

/-- Texts whose conversion waits for that of the definition are the same in both contexts. -/
def Protects (id : DefinitionId) (c c' : Context) : Prop :=
  ∀ x y, c.TextAwaits x y → c.Waits y id → c'.definition? x = c.definition? x

theorem protects_refl (id : DefinitionId) (c : Context) : Protects id c c :=
  fun _ _ _ _ => rfl

/-- What leads to the definition still does so when the texts on the way are protected. -/
theorem Protects.waits (h : Protects id c c') (hc : c.Converts c') (hx : c.Waits x id) :
    c'.Waits x id := by
  induction hx using Relation.ReflTransGen.head_induction_on with
  | refl => exact .refl
  | head hlink hy ih =>
    refine .head ?_ ih
    rcases hlink with htext | ⟨d, hd, hpart⟩
    · exact Or.inl (htext.of_eq (h _ _ htext hy))
    · obtain ⟨kind, hd', hk⟩ := hc.definition hd
      exact Or.inr ⟨_, hd', by rw [hk.parts_eq]; exact hpart⟩

/-- A pass of a definition that the first one goes on to protects what waits for the first one. -/
theorem Protects.then (h : Protects id c c₁) (hc : c.Converts c₁) (hlink : c₁.Awaits id y)
    (h' : Protects y c₁ c₂) : Protects id c c₂ := by
  intro x z htext hz
  have he := h x z htext hz
  rw [h' x z (htext.of_eq he) ((h.waits hc hz).tail hlink), he]

section
variable {handle : DefinitionId → Engine Unit}
  (hh : ∀ y, (handle y).Secures (fun _ => True) Keeps fun _ c => c.Rests .fonts y)
  (hconverts : ∀ y, (handle y).Moves Converts)
  (hprotects : ∀ y, (handle y).Moves (Protects y))
include hh hconverts hprotects

/-- The passes of the definitions that a text stands for protect what waits for the text's node,
    and the node itself; if they end with values, the definitions rest. -/
theorem protects_targets {x : Engine Unit} {ids : List DefinitionId} {r : Except Error Unit}
    (hx : x = ids.forM handle ∨ x = Engine.runAll (ids.map handle))
    (htargets : ∀ y ∈ ids, c.TextAwaits id y) (h : x.Gives c r c') :
    c.Converts c' ∧ Protects id c c' ∧ c'.definition? id = c.definition? id ∧
      (r = .ok () → ∀ y ∈ ids, c'.Rests .fonts y) := by
  have hone : ∀ y ∈ ids, (handle y).Secures
      (fun c₁ => c.Converts c₁ ∧ Protects id c c₁ ∧ c₁.definition? id = c.definition? id)
      Keeps fun _ c => c.Rests .fonts y := by
    rintro y hy c₁ r c₂ ⟨hc, hs, he⟩ h
    obtain ⟨-, hkeeps, hrests⟩ := hh y _ _ _ trivial h
    have htext : c₁.TextAwaits id y := (htargets y hy).of_eq he
    have hs₂ := hprotects y _ _ _ h
    refine ⟨⟨hc.trans (hconverts y _ _ _ h), hs.then hc (Or.inl htext) hs₂, ?_⟩, hkeeps, hrests⟩
    rw [hs₂ id y htext .refl, he]
  have hall : x.Secures
      (fun c₁ => c.Converts c₁ ∧ Protects id c c₁ ∧ c₁.definition? id = c.definition? id)
      Keeps fun _ c => ∀ y ∈ ids, c.Rests .fonts y := by
    rcases hx with rfl | rfl
    · exact Engine.Secures.forM composes_keeps (fun _ _ _ hk hr => hr.keeps hk) hone
    · exact Engine.Secures.runAll composes_keeps (fun _ _ _ hk hr => hr.keeps hk) hone
  obtain ⟨⟨hc, hs, he⟩, -, hrests⟩ := hall _ _ _ ⟨.refl c, protects_refl id c, rfl⟩ h
  exact ⟨hc, hs, he, hrests ()⟩

omit hh hconverts hprotects in
/-- Converting the text of a definition leaves all other definitions as they are. -/
theorem definition?_convertContent {l : List Inline} {r : Except Error Unit}
    (h : (Engine.convertContent id l).Gives c r c') (hne : x ≠ id) :
    c'.definition? x = c.definition? x := by
  obtain ⟨tags, d, warnings, -, -, -, rfl⟩ := Engine.gives_convertContent h
  rw [rerouteFootnotes, definition?_modifyFootnotes, definition?_modifyDefinition, if_neg hne.symm]
  rfl

/-- The font pass of a text protects what waits for its node.  If it ends with an error, the
    node is the same, too. -/
theorem protects_convert {targets : List DefinitionId → Engine Unit} {d : Definition}
    {content : Content} {r : Except Error Unit}
    (htargets : ∀ ids, targets ids = ids.forM handle ∨
      targets ids = Engine.runAll (ids.map handle))
    (hd : c.definition? id = some d) (hmem : content ∈ d.kind.contents)
    (h : (Engine.convert targets id content).Gives c r c') :
    c.Converts c' ∧ Protects id c c' ∧
      ((∃ e, r = .error e) → c'.definition? id = c.definition? id) := by
  unfold Engine.convert at h
  split at h
  · obtain ⟨-, rfl⟩ := Engine.gives_fail.1 h
    exact ⟨.refl _, protects_refl id _, fun _ => rfl⟩
  · obtain ⟨-, rfl⟩ := Engine.gives_pure.1 h
    exact ⟨.refl _, protects_refl id _, fun _ => rfl⟩
  · rename_i l hstage
    have htext : ∀ y ∈ Inline.targets l, c.TextAwaits id y :=
      fun y hy => ⟨d, content, l, hd, hmem, hstage, hy⟩
    rcases Engine.gives_bind.1 h with ⟨_, c₁, h₁, h₂⟩ | ⟨e, h₁, rfl⟩
    · obtain ⟨hc, hp, he, hrests⟩ := protects_targets hh hconverts hprotects (htargets _) htext h₁
      refine ⟨hc.trans (converts_convertContent h₂), fun x y hx hy => ?_, ?_⟩
      · by_cases hne : x = id
        · -- what the text stands for rests, so it cannot lead back to the text
          subst hne
          obtain ⟨d', content', l', hd', hmem', hstage', hy'⟩ := hx
          cases hd.symm.trans hd'
          have hsame : content' = content := by
            rw [DefinitionKind.contents_eq_of_mem hmem] at hmem'
            exact List.mem_singleton.1 hmem'
          rw [hsame, hstage] at hstage'
          cases hstage'
          obtain ⟨n, hn, -⟩ := hrests rfl y hy'
          obtain ⟨m, hm⟩ := hn.waits (hp.waits hc hy)
          exact absurd ((htext y hy').of_eq he) hm.not_textAwaits
        · rw [definition?_convertContent h₂ hne]
          exact hp x y hx hy
      · rintro ⟨e, rfl⟩
        obtain ⟨_, _, _, -, -, hr, -⟩ := Engine.gives_convertContent h₂
        cases hr
    · obtain ⟨hc, hp, he, -⟩ := protects_targets hh hconverts hprotects (htargets _) htext h₁
      exact ⟨hc, hp, fun _ => he⟩

/-- The font pass of a node protects what waits for it.  If the node is a stanza or a paragraph
    and the pass ends with an error, the node is the same, too. -/
theorem protects_fontPass {r : Except Error Unit}
    (h : (Engine.fontPass handle id).Gives c r c') :
    Protects id c c' ∧ ((∃ e, r = .error e) → (c.content? id).isSome →
      c'.definition? id = c.definition? id) := by
  obtain ⟨d, hd, hpass⟩ := Engine.gives_fontPass h
  cases hpass with
  | @parts targets r₁ r₂ c₁ _ hkind htargets htext hparts =>
    have htext : c.Converts c₁ ∧ Protects id c c₁ ∧
        ((∃ e, r₁ = .error e) → c₁.definition? id = c.definition? id) := by
      rcases htext with ⟨-, rfl, rfl⟩ | ⟨content, hmem, hcontent⟩
      · exact ⟨.refl _, protects_refl id _, fun _ => rfl⟩
      · exact protects_convert hh hconverts hprotects htargets hd hmem hcontent
    obtain ⟨hc₁, hp₁, he₁⟩ := htext
    have hone : ∀ y ∈ d.kind.children, (handle y).Secures
        (fun c₂ => c.Converts c₂ ∧ Protects id c c₂) Keeps fun _ c => c.Rests .fonts y := by
      rintro y hy c₂ r c₃ ⟨hc, hp⟩ h
      obtain ⟨-, hkeeps, hrests⟩ := hh y _ _ _ trivial h
      have hlink : c₂.Awaits id y := by
        obtain ⟨kind, hd₂, hk⟩ := hc.definition hd
        refine Or.inr ⟨_, hd₂, ?_⟩
        rw [hk.parts_eq, DefinitionKind.parts]
        exact List.mem_append_left _ hy
      exact ⟨⟨hc.trans (hconverts y _ _ _ h), hp.then hc hlink (hprotects y _ _ _ h)⟩, hkeeps,
        hrests⟩
    obtain ⟨⟨-, hp⟩, -, -⟩ := Engine.Secures.runAll composes_keeps
      (fun _ _ _ hk hr => hr.keeps hk) hone _ _ _ ⟨hc₁, hp₁⟩ hparts
    refine ⟨hp, fun herror htext => ?_⟩
    obtain ⟨content, hcontent⟩ := Option.isSome_iff_exists.1 htext
    obtain ⟨d', hd', ht⟩ := content?_eq_some.1 hcontent
    cases hd.symm.trans hd'
    rw [(DefinitionKind.contents_of_text? ht).2] at hparts
    obtain ⟨rfl, rfl⟩ := Engine.gives_pure.1 hparts
    rw [Engine.firstError_ok] at herror
    exact he₁ herror
  | @target reference t _ _ hk ht hgives =>
    have hlink : c.Awaits id t := by
      refine Or.inr ⟨d, hd, ?_⟩
      rw [hk, DefinitionKind.parts, DefinitionKind.target?, ht]
      simp
    refine ⟨(protects_refl id c).then (.refl c) hlink (hprotects t _ _ _ hgives), fun _ htext => ?_⟩
    rw [content?, hd, Option.bind_some, hk] at htext
    cases htext
  | missing => exact ⟨protects_refl id c, fun _ _ => rfl⟩

end

/-- **The font pass of a definition protects what waits for it**, however deep it nests.  If the
    definition is a stanza or a paragraph and the pass ends with an error, it is the same, too. -/
theorem protects_handleFonts (n : Nat) (id : DefinitionId) {r : Except Error Unit}
    (h : (Engine.handleFonts n id).Gives c r c') :
    Protects id c c' ∧ ((∃ e, r = .error e) → (c.content? id).isSome →
      c'.definition? id = c.definition? id) := by
  induction n generalizing id c r c' with
  | zero => exact (Engine.gives_endless.1 h).elim
  | succ n ih =>
    rw [Engine.handleFonts, Engine.gives_definition_bind] at h
    obtain ⟨d, -, h⟩ := h
    rcases Engine.gives_nested h with ⟨limit, -, -, -, rfl⟩ | ⟨r₁, c₁, h₁, rfl, rfl⟩
    · exact ⟨protects_refl id _, fun _ _ => rfl⟩
    · obtain ⟨hp, herror⟩ := protects_fontPass (Pass.secures_rests .fonts n)
        (converts_handleFonts n) (fun y _ _ _ h => (ih y h).1) h₁
      refine ⟨hp, fun he htext => herror ?_ htext⟩
      rcases r₁ with e | a
      · exact ⟨e, rfl⟩
      · obtain ⟨e, he⟩ := he
        cases he

/-! ## Footnotes -/

/-- A footnote keeps its number, and another body is one of a number with `P`. -/
def Footnote.Renewed (P : Nat → Prop) (note note' : Footnote) : Prop :=
  note'.number = note.number ∧ (note'.body = note.body ∨ P note.number)

theorem Footnote.Renewed.trans {P S Q : Nat → Prop} (hP : ∀ k, P k → Q k) (hS : ∀ k, S k → Q k)
    {l l₁ l₂ : List Footnote} (h : List.Forall₂ (Footnote.Renewed P) l l₁)
    (h' : List.Forall₂ (Footnote.Renewed S) l₁ l₂) :
    List.Forall₂ (Footnote.Renewed Q) l l₂ := by
  induction h generalizing l₂ with
  | nil => cases h'; exact .nil
  | cons hnote _ ih =>
    cases h' with
    | cons hnote' hrest' =>
      refine .cons ⟨hnote'.1.trans hnote.1, ?_⟩ (ih hrest')
      rcases hnote.2 with hbody | hp
      · rcases hnote'.2 with hbody' | hp'
        · exact Or.inl (hbody'.trans hbody)
        · exact Or.inr (hS _ (hnote.1 ▸ hp'))
      · exact Or.inr (hP _ hp)

theorem Footnote.renewed_refl (P : Nat → Prop) (l : List Footnote) :
    List.Forall₂ (Footnote.Renewed P) l l :=
  List.forall₂_same.2 fun _ _ => ⟨rfl, Or.inl rfl⟩

theorem renewed_replaceFootnote (note : Footnote) (routed : List Footnote) :
    List.Forall₂ (Footnote.Renewed (· = note.number)) routed (replaceFootnote note routed) := by
  induction routed with
  | nil => exact .nil
  | cons old rest ih =>
    rw [replaceFootnote]
    split
    · rename_i he
      exact .cons ⟨he.symm, Or.inr he⟩ (Footnote.renewed_refl _ rest)
    · exact .cons ⟨rfl, Or.inl rfl⟩ ih

theorem renewed_foldl_replaceFootnote (notes routed : List Footnote) :
    List.Forall₂ (Footnote.Renewed (· ∈ notes.map Footnote.number)) routed
      (notes.foldl (fun routed note => replaceFootnote note routed) routed) := by
  induction notes generalizing routed with
  | nil => exact Footnote.renewed_refl _ routed
  | cons note notes ih =>
    refine Footnote.Renewed.trans ?_ ?_ (renewed_replaceFootnote note routed) (ih _)
    · rintro k rfl; exact List.mem_cons_self
    · exact fun k hk => List.mem_cons_of_mem _ hk

namespace Context

/-- A text of the document is still to be converted in the first context, is converted in the
    second one, and made a footnote of the number. -/
def Renews (c c' : Context) (document : Option DocumentId) (number : Nat) : Prop :=
  ∃ x d content l, c.definition? x = some d ∧ d.document = document ∧
    content ∈ d.kind.contents ∧ content.stage = .commandsResolved l ∧
    number ∈ (Inline.footnotes l).map Footnote.number ∧ c'.IsConvertedAt x

/-- Footnotes keep their numbers and their places, and have other bodies only if the texts that
    made them are converted. -/
def RenewsNotes (c c' : Context) : Prop :=
  ∀ document, List.Forall₂ (Footnote.Renewed (c.Renews c' document)) (c.footnotes document)
    (c'.footnotes document)

theorem Converts.isConvertedAt (h : Converts c c') (hx : c.IsConvertedAt x) :
    c'.IsConvertedAt x := by
  obtain ⟨d, hd, hc⟩ := hx
  obtain ⟨d', hd', hk⟩ := h.keeps.definition hd
  exact ⟨d', hd', hk.contents .fonts hc⟩

theorem composes_renewsNotes : Engine.Composes fun c c' => Converts c c' ∧ RenewsNotes c c' where
  refl c := ⟨.refl c, fun _ => Footnote.renewed_refl _ _⟩
  trans := by
    rintro c₁ c₂ c₃ ⟨hc, hr⟩ ⟨hc', hr'⟩
    refine ⟨hc.trans hc', fun document => Footnote.Renewed.trans ?_ ?_ (hr document) (hr' document)⟩
    · rintro k ⟨x, d, content, l, hd, hdocument, hmem, hstage, hk, hconverted⟩
      exact ⟨x, d, content, l, hd, hdocument, hmem, hstage, hk, hc'.isConvertedAt hconverted⟩
    · rintro k ⟨x, d₂, content, l, hd₂, hdocument, hmem, hstage, hk, hconverted⟩
      obtain ⟨d, kind, hd, rfl, hkind⟩ := hc.of_definition? hd₂
      refine ⟨x, d, content, l, hd, hdocument, ?_, hstage, hk, hconverted⟩
      cases hkind with
      | same => exact hmem
      | fonts =>
        -- a text that has been converted is not still to be converted
        obtain ⟨⟨source, _ | _ | _⟩, -, rfl⟩ := DefinitionKind.mem_contents_mapContents.1 hmem <;>
          cases hstage

end Context

/-- Converting a text renews the footnotes that it made. -/
theorem renewsNotes_convertContent {d : Definition} {content : Content} {l : List Inline}
    {r : Except Error Unit} (hd : c.definition? id = some d) (hmem : content ∈ d.kind.contents)
    (hstage : content.stage = .commandsResolved l) (h : Converts c c₁ ∧ RenewsNotes c c₁)
    (hconvert : (Engine.convertContent id l).Gives c₁ r c') :
    Converts c c' ∧ RenewsNotes c c' := by
  obtain ⟨hc, hr⟩ := h
  have hc' := converts_convertContent hconvert
  have hconverted : c'.IsConvertedAt id := by
    have hhandled : ∀ content ∈ d.kind.contents, content.IsHandled := by
      rw [DefinitionKind.contents_eq_of_mem hmem]
      intro content' hmem'
      simp [List.mem_singleton.1 hmem', Content.IsHandled, hstage]
    obtain ⟨d₁, hd₁, hkeeps⟩ := hc.keeps.definition hd
    exact isConvertedAt_convertContent hd₁ (hkeeps.contents .commands hhandled) hconvert
  refine ⟨hc.trans hc', fun document => Footnote.Renewed.trans
    (S := fun k => d.document = document ∧ k ∈ (Inline.footnotes l).map Footnote.number)
    ?_ ?_ (hr document) ?_⟩
  · rintro k ⟨x, d, content, l, hd, hdocument, hmem, hstage, hk, hx⟩
    exact ⟨x, d, content, l, hd, hdocument, hmem, hstage, hk, hc'.isConvertedAt hx⟩
  · rintro k ⟨hdocument, hk⟩
    exact ⟨id, d, content, l, hd, hdocument, hmem, hstage, hk, hconverted⟩
  · obtain ⟨tags, d₁, warnings, -, hd₁, -, rfl⟩ := Engine.gives_convertContent hconvert
    obtain ⟨kind, hd₁', -⟩ := hc.definition hd
    cases hd₁.symm.trans hd₁'
    rw [Context.footnotes, Context.footnotes, rerouteFootnotes]
    generalize hc₂ : (c₁.warnAll warnings).modifyDefinition id _ = c₂
    have hlist : c₂.footnoteList document = c₁.footnoteList document := by
      rw [← hc₂]
      exact footnoteList_of_eq rfl rfl
    rcases footnoteList_modifyFootnotes_cases c₂ d.document _ document with hsame | ⟨he, hnew⟩
    · rw [hsame, hlist]
      exact Footnote.renewed_refl _ _
    · rw [hnew, hlist]
      refine (renewed_foldl_replaceFootnote _ _).imp fun note note' hnote => ⟨hnote.1, ?_⟩
      rw [← Inline.numbers_remapList c₁.fonts tags l]
      exact hnote.2.imp_right fun hk => ⟨he, hk⟩

theorem renewsNotes_handleFonts (n : Nat) (id : DefinitionId) :
    (Engine.handleFonts n id).Moves fun c c' => Converts c c' ∧ RenewsNotes c c' := by
  refine Engine.handleFonts_moves composes_renewsNotes (fun h => ?_)
    (fun hd hmem hstage h hconvert => renewsNotes_convertContent hd hmem hstage h hconvert) n id
  exact ⟨h.1.leave, h.2⟩

/-! ## The font pass -/

/-- **All that the font pass changes.**  Whether a call for the fonts of a definition ends with a
    value or an error:

    * what was written, registered or set is as before, and so are the numbers drawn and the
      number of passes under way;
    * a definition is as before but for its text, and the text is as before, or its commands
      were handled and its fonts are now converted under the tags in effect;
    * if the call ends with an error, the stanza or paragraph it is for is as before;
    * footnotes keep their numbers and their places, and have other bodies only if the texts
      that made them were converted. -/
theorem frame_of_fonts {r : Except Error Unit} (h : (Call.fonts id).Ends c r c') :
    (c'.unresolved = c.unresolved ∧ c'.depth = c.depth ∧
      ∀ document, c'.drawn document = c.drawn document) ∧
    (∀ x d, c.definition? x = some d → ∃ f : Content → Content,
      c'.definition? x = some { d with kind := d.kind.mapContents f } ∧
      ∀ content ∈ d.kind.contents, f content = content ∨ ∃ tags l,
        c.effectiveTags? x = some tags ∧ content.stage = .commandsResolved l ∧
        f content = { content with stage := .fullyResolved (l.map (Inline.remap c.fonts tags)) }) ∧
    (∀ e, r = .error e → (c.content? id).isSome → c'.definition? id = c.definition? id) ∧
    RenewsNotes c c' := by
  obtain ⟨n, h⟩ := h
  obtain ⟨hc, hnotes⟩ := renewsNotes_handleFonts n id _ _ _ h
  refine ⟨⟨hc.written, hc.depth, hc.drawn⟩, fun x d hd => ?_,
    fun e he htext => (protects_handleFonts n id h).2 ⟨e, he⟩ htext, hnotes⟩
  obtain ⟨kind, hd', hk⟩ := hc.definition hd
  cases hk with
  | same =>
    refine ⟨fun content => content, ?_, fun content _ => Or.inl rfl⟩
    rw [hd', DefinitionKind.mapContents_eq_self fun _ _ => rfl]
  | @fonts tags htags =>
    refine ⟨fun content => content.resolveFonts (Inline.remap c.fonts tags), hd', ?_⟩
    rintro ⟨source, _ | l | l⟩ -
    · exact Or.inl rfl
    · exact Or.inr ⟨tags, l, htags, rfl, rfl⟩
    · exact Or.inl rfl

/-- A stanza inserts two others, and the source of the second one is set anew after its commands
    were handled: converting the fonts fails there.  The first one and its footnote are converted
    then, and the stanza that failed is as it was. -/
theorem frame_of_fonts_of_failure :
    ∃ c c' : Context, ∃ e, (Call.fonts ⟨3⟩).Ends c (.error e) c' ∧
      (c.text? ⟨1⟩ = some "a[1]" ∧ c'.text? ⟨1⟩ = some "ⲁ[1]") ∧
      (c.footnotes (some ⟨0⟩)).map (fun note => c.inlineText? note.body) = [some "b"] ∧
      (c'.footnotes (some ⟨0⟩)).map (fun note => c'.inlineText? note.body) = [some "ⲃ"] ∧
      c'.definition? ⟨3⟩ = c.definition? ⟨3⟩ := by
  let c₀ := [Edit.addDocument "d" "D",
    .addVersion ⟨0⟩ (.ofKnown .coptic) (some "CS Avva Shenouda"),
    .addStanza ⟨0⟩ (some "a") "a\\footnote\x7bb\x7d", .addStanza ⟨0⟩ (some "b") "x",
    .addStanza ⟨0⟩ none "\\def\x7ba\x7d\\def\x7bb\x7d"].foldl Edit.apply (.new {})
  let c := ((Call.commands ⟨3⟩).run 4 c₀).setSourceText ⟨2⟩ "y"
  obtain ⟨e, h⟩ : ∃ e, (Call.fonts ⟨3⟩).Ends c (.error e) ((Call.fonts ⟨3⟩).run 4 c) :=
    Call.ends_run_error (by decide +kernel)
  obtain ⟨-, -, herror, -⟩ := frame_of_fonts h
  exact ⟨c, _, e, h, ⟨by decide +kernel, by decide +kernel⟩, by decide +kernel,
    by decide +kernel, herror e rfl (by decide +kernel)⟩

end Rubric
