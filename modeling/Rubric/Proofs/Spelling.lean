/-
  Rubric — inlines that spell a value.

  Without fonts a text is the same wherever it stands, so an executed inline
  has one text, whatever the tags around it.

  * `Segment.Spells`: segments in no font whose text is the value;
    `Inline.Speaks`: an inline with such segments wherever it stands;
  * `Inline.Matches`: an executed inline speaks the value of the inline that was
    written, as far as the definitions that it shows speak theirs; one lemma for
    each thing that an inline may become;
  * `Context.Faithful`: every handled text matches its source;
  * **`Faithful.spells`**: in a faithful context the text of a resolved
    definition is its value.
-/
import Rubric.Proofs.CommandPass
import Rubric.Proofs.Unresolved

namespace Rubric

open Context Text

/-! ## No fonts -/

/-- The tags name no font. -/
def Tags.IsFontless (tags : Tags) : Prop :=
  tags.fontName? = none

instance : DecidablePred Tags.IsFontless := fun tags =>
  inferInstanceAs (Decidable (tags.fontName? = none))

namespace Tags.IsFontless

theorem typedFont? {tags : Tags} (h : tags.IsFontless) : tags.typedFont? = none := by
  unfold Tags.typedFont?
  split
  · rfl
  · exact h

theorem inherit {own enclosing : Tags} (ho : own.IsFontless) (he : enclosing.IsFontless) :
    (own.inherit enclosing).IsFontless := by
  rcases own with ⟨language, _ | name | _⟩
  · exact he
  · cases ho
  · rfl

theorem unset : Tags.unset.IsFontless := rfl

theorem unicode (language : Option Language) : (Tags.unicode language).IsFontless := rfl

end Tags.IsFontless

/-- The runs of a multilingual value. -/
def DefinitionKind.runs : DefinitionKind → List Run
  | .multilingual runs => runs.runs.toList
  | _ => []

/-- No definition and no run of a multilingual value has a font. -/
def Context.IsFontless (c : Context) : Prop :=
  ∀ d ∈ c.definitions, d.font = none ∧ ∀ run ∈ d.kind.runs, run.tags.IsFontless

instance : DecidablePred Context.IsFontless := fun c =>
  inferInstanceAs (Decidable (∀ d ∈ c.definitions, d.font = none ∧
    ∀ run ∈ d.kind.runs, run.tags.IsFontless))

namespace Context.IsFontless

variable {c : Context} (h : c.IsFontless) {x : DefinitionId} {d : Definition}
include h

theorem font (hd : c.definition? x = some d) : d.font = none :=
  (h d (Array.mem_of_getElem? hd)).1

theorem runs (hd : c.definition? x = some d) {runs : RunCollection}
    (hk : d.kind = .multilingual runs) : ∀ run ∈ runs.runs, run.tags.IsFontless := by
  intro run hrun
  refine (h d (Array.mem_of_getElem? hd)).2 run ?_
  rw [hk]
  exact Array.mem_toList_iff.2 hrun

theorem effectiveTags? {tags : Tags} (ht : c.effectiveTags? x = some tags) : tags.IsFontless := by
  have hwithin : ∀ n found x tags, found.IsFontless → c.tagsWithin n found x = some tags →
      tags.IsFontless := by
    intro n
    induction n with
    | zero => intro found x tags _ ht; cases ht
    | succ n ih =>
      intro found x tags hfound ht
      rcases hd : c.definition? x with _ | d
      · simp [tagsWithin, hd] at ht
      have hown : d.ownTags.IsFontless := by rw [Definition.ownTags, h.font hd]; rfl
      simp only [tagsWithin, hd, Option.bind_eq_bind, Option.bind_some] at ht
      split at ht
      · cases ht
        exact hfound.inherit hown
      rcases hp : d.parent with _ | parent
      · simp only [hp] at ht
        cases ht
        exact hfound.inherit hown
      · simp only [hp] at ht
        exact ih _ parent tags (hfound.inherit hown) ht
  exact hwithin _ .unset x tags rfl ht

end Context.IsFontless

/-! ## Runs of multilingual values -/

theorem RunCollection.mem_of_findKnown? {collection : RunCollection} {known : KnownLanguage}
    {run : Run} (h : collection.findKnown? known = some run) : run ∈ collection.runs := by
  obtain ⟨i, -, hi⟩ := Option.bind_eq_some_iff.1 h
  exact Array.mem_of_getElem? hi

theorem Context.mem_of_runFor {c : Context} {language : Option Language} {runs : RunCollection}
    {run : Run} (h : c.runFor language runs = some run) : run ∈ runs.runs := by
  unfold runFor at h
  split at h
  · exact RunCollection.mem_of_findKnown? h
  · unfold RunCollection.find? at h
    split at h
    · exact RunCollection.mem_of_findKnown? h
    · rcases Option.or_eq_some_iff.1 h with hfirst | ⟨-, hfirst⟩
      · exact Array.mem_toList_iff.1 (List.mem_of_find?_eq_some hfirst)
      · exact Array.mem_toList_iff.1 (List.mem_of_find?_eq_some hfirst)

/-- The run that a command selects has the text of the one for its language. -/
theorem Invocation.selectRun_eq {call : Invocation} {c : Context} {runs : RunCollection} :
    call.selectRun runs c.settings.equivalence =
      (c.runFor call.tags.language runs).map fun run => match run.tags.font with
        | .inherit => { run with tags := { run.tags with font := .cleared } }
        | .named _ | .cleared => run :=
  rfl

/-! ## Segments that spell a text -/

/-- The segments are in no font, and their text is `v`. -/
structure Segment.Spells (segments : List Segment) (v : String) : Prop where
  text : Segment.plain segments = v
  font : ∀ segment ∈ segments, segment.font = none

namespace Segment.Spells

theorem nil : Spells [] "" :=
  ⟨rfl, by simp⟩

theorem singleton (text : String) : Spells [{ text }] text :=
  ⟨by simp [Segment.plain], by simp⟩

theorem append {s s' : List Segment} {v v' : String} (h : Spells s v) (h' : Spells s' v') :
    Spells (s ++ s') (v ++ v') := by
  obtain ⟨rfl, hfont⟩ := h
  obtain ⟨rfl, hfont'⟩ := h'
  refine ⟨by simp [Segment.plain], fun segment hmem => ?_⟩
  rcases List.mem_append.1 hmem with hmem | hmem
  · exact hfont segment hmem
  · exact hfont' segment hmem

theorem flatten {ss : List (List Segment)} {vs : List String} (h : List.Forall₂ Spells ss vs) :
    Spells ss.flatten (String.join vs) := by
  induction h with
  | nil => exact nil
  | cons hs _ ih =>
    rw [List.flatten_cons, String.join_cons]
    exact hs.append ih

/-- Segments in no font are Unicode. -/
theorem normalize {s : List Segment} {v : String} (h : Spells s v) (fonts : FontRegistry) :
    fonts.normalize s = v := by
  obtain ⟨rfl, hfont⟩ := h
  rw [FontRegistry.normalize, Segment.plain]
  congr 1
  refine List.map_congr_left fun segment hmem => ?_
  rw [FontRegistry.normalizeSegment, hfont segment hmem]

end Segment.Spells

open Segment (Spells)

/-- Where each value of a list is spelled, all are. -/
theorem mapM_spells {α : Type} {l : List α} {f : α → Option String}
    {g : α → Option (List Segment)}
    (h : ∀ a ∈ l, ∀ v, f a = some v → ∃ s, g a = some s ∧ Spells s v) {vs : List String}
    (hvs : l.mapM f = some vs) : ∃ ss, l.mapM g = some ss ∧ List.Forall₂ Spells ss vs := by
  induction l generalizing vs with
  | nil =>
    cases hvs
    exact ⟨[], rfl, .nil⟩
  | cons a l ih =>
    obtain ⟨v, ws, hv, hws, rfl⟩ := mapM_cons_eq_some.1 hvs
    obtain ⟨s, hs, hspells⟩ := h a (by simp) v hv
    obtain ⟨ss, hss, hall⟩ := ih (fun b hb => h b (by simp [hb])) hws
    exact ⟨s :: ss, mapM_cons_eq_some.2 ⟨s, ss, hs, hss, rfl⟩, .cons hspells hall⟩

/-- Lists that correspond, with separators between that do so if there are any. -/
theorem forall₂_intersperse {α β : Type} {R : α → β → Prop} {a : α} {b : β} :
    ∀ {l : List α} {l' : List β}, (a ∈ l.intersperse a → R a b) → List.Forall₂ R l l' →
      List.Forall₂ R (l.intersperse a) (l'.intersperse b)
  | [], _, _, h => by cases h; exact .nil
  | [x], _, _, h => by
    cases h with
    | cons hx h => cases h; exact .cons hx .nil
  | x :: y :: l, _, hab, h => by
    rw [List.intersperse_cons_cons] at hab
    have hab : R a b := hab (by simp)
    cases h with
    | cons hx h =>
      have ih := forall₂_intersperse (fun _ => hab) h
      cases h with
      | cons hy h =>
        rw [List.intersperse_cons_cons, List.intersperse_cons_cons]
        exact .cons hx (.cons hab ih)

/-! ## Inlines that spell a text -/

namespace Inline

variable {segmentsOf : DefinitionId → Option (List Segment)} {own tags : Tags} {v : String}

/-- Wherever the inline stands, its text is `v`. -/
def Speaks (segmentsOf : DefinitionId → Option (List Segment)) (i : Inline) (v : String) : Prop :=
  ∀ tags : Tags, tags.IsFontless → ∃ s, segments segmentsOf tags i = some s ∧ Spells s v

theorem speaks_run (text : String) (ho : own.IsFontless) :
    Speaks segmentsOf (run text own) text := by
  intro tags ht
  refine ⟨[{ text }], ?_, .singleton text⟩
  rw [segments_run, (ho.inherit ht).typedFont?]

/-- Inlines in order spell their texts in order. -/
theorem spells_of_speaks {l : List Inline} {vs : List String}
    (h : List.Forall₂ (Speaks segmentsOf) l vs) (ht : tags.IsFontless) :
    ∃ s, segmentsList segmentsOf tags l = some s ∧ Spells s (String.join vs) := by
  suffices hall : ∃ ss, l.mapM (segments segmentsOf tags) = some ss ∧ List.Forall₂ Spells ss vs by
    obtain ⟨ss, hss, hspells⟩ := hall
    exact ⟨ss.flatten, by rw [segmentsList_eq, hss]; rfl, .flatten hspells⟩
  induction h with
  | nil => exact ⟨[], rfl, .nil⟩
  | cons hi _ ih =>
    obtain ⟨s, hs, hv⟩ := hi tags ht
    obtain ⟨ss, hss, hvs⟩ := ih
    exact ⟨s :: ss, mapM_cons_eq_some.2 ⟨s, ss, hs, hss, rfl⟩, .cons hv hvs⟩

theorem speaks_span {l : List Inline} {vs : List String} (ho : own.IsFontless)
    (h : List.Forall₂ (Speaks segmentsOf) l vs) :
    Speaks segmentsOf (span l own) (String.join vs) := by
  intro tags ht
  rw [segments_span]
  exact spells_of_speaks h (ho.inherit ht)

section
variable {name : String} {kind : CommandKind} {parameters : List Inline}

theorem speaks_definition {id : DefinitionId} {s : List Segment} (hs : segmentsOf id = some s)
    (hv : Spells s v) :
    Speaks segmentsOf (command name kind parameters own (.evaluated (.definition id))) v := by
  intro tags _
  rw [segments_command]
  exact ⟨s, hs, hv⟩

theorem speaks_parameter {n : Nat} {i : Inline} (ho : own.IsFontless)
    (hn : parameters[n]? = some i) (hi : Speaks segmentsOf i v) :
    Speaks segmentsOf (command name kind parameters own (.evaluated (.parameter n))) v := by
  intro tags ht
  rw [segments_command]
  obtain ⟨s, hs, hv⟩ := hi _ (ho.inherit ht)
  refine ⟨s, ?_, hv⟩
  simp only [Evaluation.output?, Evaluation.shownOf, hn, Option.toList_some]
  rw [segmentsList_singleton, hs]

theorem speaks_inline {i : Inline} (ho : own.IsFontless) (hi : Speaks segmentsOf i v) :
    Speaks segmentsOf (command name kind parameters own (.evaluated (.inline i))) v := by
  intro tags ht
  rw [segments_command]
  obtain ⟨s, hs, hv⟩ := hi _ (ho.inherit ht)
  refine ⟨s, ?_, hv⟩
  simp only [Evaluation.output?, Evaluation.shownOf]
  rw [segmentsList_singleton, hs]

end

/-! ## Inlines that match what was written -/

/-- The segments of a definition spell its value, if it has one. -/
def Voices (valueOf : DefinitionId → Option String)
    (segmentsOf : DefinitionId → Option (List Segment)) (t : DefinitionId) : Prop :=
  ∀ w, valueOf t = some w → ∃ s, segmentsOf t = some s ∧ Spells s w

/-- The inline that was written has a value, and the executed one speaks it.  How many of the
    other definitions have values is left open: each text ends after as many rounds as its value
    is found in. -/
structure Matches (c₀ : Context) (document : Option DocumentId) (language : Option Language)
    (i i' : Inline) : Prop where
  value : ∃ v, denote c₀ c₀.value? document language i = some v
  speaks : ∀ {valueOf segmentsOf v}, (∀ t w, valueOf t = some w → c₀.value? t = some w) →
    (∀ t ∈ shownTargets [i'], Voices valueOf segmentsOf t) →
    denote c₀ valueOf document language i = some v → Speaks segmentsOf i' v

section
variable {c₀ : Context} {document : Option DocumentId} {language : Option Language}
  {l l' : List Inline} (h : List.Forall₂ (Matches c₀ document language) l l')
include h

theorem mapM_of_matches : ∃ vs, l.mapM (denote c₀ c₀.value? document language) = some vs := by
  induction h with
  | nil => exact ⟨[], rfl⟩
  | cons hi _ ih =>
    obtain ⟨v, hv⟩ := hi.value
    obtain ⟨vs, hvs⟩ := ih
    exact ⟨v :: vs, mapM_cons_eq_some.2 ⟨v, vs, hv, hvs, rfl⟩⟩

theorem speaks_of_matches {valueOf : DefinitionId → Option String} {vs : List String}
    (hvalue : ∀ t w, valueOf t = some w → c₀.value? t = some w)
    (ht : ∀ t ∈ shownTargets l', Voices valueOf segmentsOf t)
    (hvs : l.mapM (denote c₀ valueOf document language) = some vs) :
    List.Forall₂ (Speaks segmentsOf) l' vs := by
  induction h generalizing vs with
  | nil =>
    cases hvs
    exact .nil
  | @cons i i' l l' hi _ ih =>
    obtain ⟨v, ws, hv, hws, rfl⟩ := mapM_cons_eq_some.1 hvs
    have hfirst : ∀ t ∈ shownTargets [i'], Voices valueOf segmentsOf t := by
      intro t hmem
      exact ht t (mem_shownTargets_iff.2 ⟨i', by simp, hmem⟩)
    have hrest : ∀ t ∈ shownTargets l', Voices valueOf segmentsOf t := by
      intro t hmem
      obtain ⟨j, hj, hmem⟩ := mem_shownTargets_iff.1 hmem
      exact ht t (mem_shownTargets_iff.2 ⟨j, by simp [hj], hmem⟩)
    exact .cons (hi.speaks hvalue hfirst hv) (ih hrest hws)

end

end Inline

/-! ## What commands become -/

namespace Inline

variable {c₀ : Context} {document : Option DocumentId} {language : Option Language} {name : String}

theorem matches_run (text : String) :
    Matches c₀ document language (run text .unset) (run text .unset) where
  value := ⟨text, denote_run text .unset⟩
  speaks := by
    intro valueOf segmentsOf v _ _ hv
    rw [denote_run] at hv
    cases hv
    exact speaks_run text .unset

theorem matches_span {l l' : List Inline} (h : List.Forall₂ (Matches c₀ document language) l l') :
    Matches c₀ document language (span l .unset) (span l' .unset) where
  value := by
    obtain ⟨values, hvalues⟩ := mapM_of_matches h
    exact ⟨String.join values, by rw [denote_span, hvalues]; rfl⟩
  speaks := by
    intro valueOf segmentsOf v hvalue ht hv
    rw [denote_span] at hv
    obtain ⟨values, hvalues, rfl⟩ := Option.map_eq_some_iff.1 hv
    rw [shownTargets_span] at ht
    exact speaks_span .unset (speaks_of_matches h hvalue ht hvalues)

/-- The key of a command keeps its value, and so what it inserts is known. -/
theorem insertedValue_of_denote {key : Inline} {own : Tags} {evaluation : Evaluation}
    {text v : String} {valueOf : DefinitionId → Option String}
    (hvalue : ∀ t w, valueOf t = some w → c₀.value? t = some w)
    (hkey : denote c₀ c₀.value? document language key = some text)
    (hv : denote c₀ valueOf document language (command name .definition [key] own evaluation) =
      some v) : c₀.insertedValue valueOf document language (trim text) = some v := by
  rw [denote_definition, Option.bind_eq_some_iff] at hv
  obtain ⟨text', htext', hv⟩ := hv
  obtain rfl : text = text' := Option.some.inj (hkey.symm.trans (denote_mono hvalue htext'))
  exact hv

/-- A command that inserts a definition, which has a value. -/
theorem matches_definition {key key' : Inline} {text : String} {target : DefinitionId}
    (hkey : denote c₀ c₀.value? document language key = some text)
    (hinserted : ∀ valueOf, c₀.insertedValue valueOf document language (trim text) = valueOf target)
    (htarget : ∃ v, c₀.value? target = some v) :
    Matches c₀ document language (command name .definition [key] .unset .pending)
      (command name .definition [key'] .unset (.evaluated (.definition target))) where
  value := by
    obtain ⟨v, hv⟩ := htarget
    exact ⟨v, by rw [denote_definition, hkey, Option.bind_some, hinserted, hv]⟩
  speaks := by
    intro valueOf segmentsOf v hvalue ht hv
    replace hv := insertedValue_of_denote hvalue hkey hv
    rw [hinserted] at hv
    obtain ⟨s, hs, hspells⟩ := ht target (by rw [shownTargets_definition]; simp) v hv
    exact speaks_definition hs hspells

/-- A command that inserts a run of a multilingual value. -/
theorem matches_value {key key' : Inline} {text shown : String} {own : Tags}
    (hkey : denote c₀ c₀.value? document language key = some text)
    (hinserted : ∀ valueOf, c₀.insertedValue valueOf document language (trim text) = some shown)
    (ho : own.IsFontless) :
    Matches c₀ document language (command name .definition [key] .unset .pending)
      (command name .definition [key'] .unset (.evaluated (.inline (run shown own)))) where
  value := ⟨shown, by rw [denote_definition, hkey, Option.bind_some, hinserted]⟩
  speaks := by
    intro valueOf segmentsOf v hvalue _ hv
    replace hv := insertedValue_of_denote hvalue hkey hv
    rw [hinserted] at hv
    cases hv
    exact speaks_inline .unset (speaks_run shown ho)

/-- A command that shows the branch that its condition selects. -/
theorem matches_ternary {condition yes no shown : Inline} {parameters : List Inline} {n : Nat}
    {text : String} {value : Bool}
    (hcondition : denote c₀ c₀.value? document language condition = some text)
    (hread : readTruth text = some value)
    (hshown : Matches c₀ document language (if value then yes else no) shown)
    (hn : parameters[n]? = some shown) :
    Matches c₀ document language (command name .ternary [condition, yes, no] .unset .pending)
      (command name .ternary parameters .unset (.evaluated (.parameter n))) := by
  have hdenote : ∀ {valueOf}, denote c₀ valueOf document language condition = some text →
      denote c₀ valueOf document language
        (command name .ternary [condition, yes, no] .unset .pending) =
          denote c₀ valueOf document language (if value then yes else no) := by
    intro valueOf hc
    rw [denote_ternary, hc, Option.bind_some, hread, Option.bind_some]
    cases value <;> rfl
  refine ⟨?_, ?_⟩
  · obtain ⟨v, hv⟩ := hshown.value
    exact ⟨v, (hdenote hcondition).trans hv⟩
  · intro valueOf segmentsOf v hvalue ht hv
    have hc : denote c₀ valueOf document language condition = some text := by
      have hsome := hv
      rw [denote_ternary, Option.bind_eq_some_iff] at hsome
      obtain ⟨text', htext', -⟩ := hsome
      obtain rfl : text = text' :=
        Option.some.inj (hcondition.symm.trans (denote_mono hvalue htext'))
      exact htext'
    rw [hdenote hc] at hv
    rw [shownTargets_parameter hn] at ht
    exact speaks_parameter .unset hn (hshown.speaks hvalue ht hv)

/-- A command that joins lines with a separator, whose text is `joint`. -/
theorem matches_lines {separator separator' between : Inline} {lines lines' : List Inline}
    {text joint : String}
    (hseparator : denote c₀ c₀.value? document language separator = some text)
    (hjoint : (if text.isEmpty then c₀.separatorValue c₀.value? document language else some text) =
      some joint)
    (hlines : List.Forall₂ (Matches c₀ document language) lines lines')
    (hbetween : ∀ {valueOf segmentsOf}, (∀ t w, valueOf t = some w → c₀.value? t = some w) →
      denote c₀ valueOf document language separator = some text →
      (∀ t ∈ shownTargets [between], Voices valueOf segmentsOf t) →
        Speaks segmentsOf between joint) :
    Matches c₀ document language (command name .lines (separator :: lines) .unset .pending)
      (command name .lines (separator' :: lines') .unset
        (.evaluated (.inline (span (lines'.intersperse between) .unset)))) := by
  refine ⟨?_, ?_⟩
  · obtain ⟨values, hvalues⟩ := mapM_of_matches hlines
    refine ⟨String.join (values.intersperse joint), ?_⟩
    rw [denote_lines, hseparator, Option.bind_some, hvalues, Option.bind_some, linesValue, hjoint,
      Option.map_some]
  · intro valueOf segmentsOf v hvalue ht hv
    simp only [denote_lines, Option.bind_eq_some_iff] at hv
    obtain ⟨text', htext', values, hvalues, hv⟩ := hv
    obtain rfl : text = text' :=
      Option.some.inj (hseparator.symm.trans (denote_mono hvalue htext'))
    have hv : v = String.join (values.intersperse joint) := by
      have hmono := linesValue_mono hvalue hv
      rw [linesValue, hjoint, Option.map_some] at hmono
      exact (Option.some.inj hmono).symm
    subst hv
    have hshown : ∀ {i}, i ∈ lines'.intersperse between → ∀ t ∈ shownTargets [i],
        Voices valueOf segmentsOf t := by
      intro i hi t hmem
      refine ht t ?_
      rw [shownTargets_inline, shownTargets_span]
      exact mem_shownTargets_iff.2 ⟨i, hi, hmem⟩
    refine speaks_inline .unset (speaks_span .unset (forall₂_intersperse ?_ ?_))
    · exact fun hmem => hbetween hvalue htext' (hshown hmem)
    · refine speaks_of_matches hlines hvalue (fun t hmem => ?_) hvalues
      obtain ⟨i, hi, hmem⟩ := mem_shownTargets_iff.1 hmem
      obtain ⟨k, hk⟩ := List.getElem?_of_mem hi
      refine hshown (List.mem_of_getElem? (i := 2 * k) ?_) t hmem
      rw [List.getElem?_intersperse_two_mul, hk]

end Inline

/-! ## Faithful contexts -/

section
variable {c₀ c : Context}

/-- The content is read, and what its inlines were executed to matches them. -/
def Content.Matches (c₀ : Context) (document : Option DocumentId) (language : Option Language)
    (content : Content) : Prop :=
  ∃ written, Markup.parse c₀.commands content.source = .ok written ∧
    List.Forall₂ (Inline.Matches c₀ document language) written content.inlines

theorem Content.Matches.value {document : Option DocumentId} {language : Option Language}
    {content : Content} (h : content.Matches c₀ document language) :
    ∃ v, c₀.sourceValue c₀.value? document language content.source = some v := by
  obtain ⟨written, hparse, hmatches⟩ := h
  obtain ⟨vs, hvs⟩ := Inline.mapM_of_matches hmatches
  exact ⟨String.join vs, by rw [sourceValue_eq hparse, hvs]; rfl⟩

theorem Content.Matches.spells {document : Option DocumentId} {language : Option Language}
    {content : Content} (h : content.Matches c₀ document language)
    {valueOf : DefinitionId → Option String}
    {segmentsOf : DefinitionId → Option (List Segment)} {v : String} {tags : Tags}
    (hvalue : ∀ t w, valueOf t = some w → c₀.value? t = some w)
    (ht : ∀ t ∈ Inline.shownTargets content.inlines, Inline.Voices valueOf segmentsOf t)
    (hv : c₀.sourceValue valueOf document language content.source = some v)
    (htags : tags.IsFontless) : ∃ s, content.segments segmentsOf tags = some s ∧ Spells s v := by
  obtain ⟨written, hparse, hmatches⟩ := h
  rw [sourceValue_eq hparse] at hv
  obtain ⟨vs, hvs, rfl⟩ := Option.map_eq_some_iff.1 hv
  rw [Content.segments_eq]
  exact Inline.spells_of_speaks (Inline.speaks_of_matches hmatches hvalue ht hvs) htags

namespace Context

/-- What was written stays, part references lead where their keys do, and every handled text
    matches its source. -/
structure Faithful (c₀ c : Context) : Prop where
  unresolved : c.unresolved = c₀.unresolved
  targets : ∀ {x d reference t}, c.definition? x = some d → d.kind = .partReference reference →
    reference.target = some t → c₀.lookup? reference.targetKey d.document = some t
  contents : ∀ {x d content tags}, c.definition? x = some d → content ∈ d.kind.contents →
    content.IsHandled → c₀.effectiveTags? x = some tags →
    content.Matches c₀ d.document tags.language

/-- **In a faithful context without fonts the text of a resolved definition is its value.** -/
theorem Faithful.spells (hf : c₀.Faithful c) (hfont : c₀.IsFontless) (n : Nat) {x : DefinitionId}
    {v : String} (hr : c.Resolved x) (hv : c₀.valueWithin n x = some v) :
    ∃ s, c.segmentsWithin n x = some s ∧ Spells s v := by
  induction n generalizing x v with
  | zero => cases hv
  | succ n ih =>
    obtain ⟨d, hd, hresolved, hlinks⟩ := resolved_iff.1 hr
    obtain ⟨tags, htags⟩ : ∃ tags, c.effectiveTags? x = some tags := by
      rw [effectiveTags?_of_unresolved_eq hf.unresolved]
      simp only [valueWithin, Option.bind_eq_bind, Option.bind_eq_some_iff] at hv
      obtain ⟨_, -, tags, htags, -⟩ := hv
      exact ⟨tags, htags⟩
    have htags₀ : c₀.effectiveTags? x = some tags :=
      (effectiveTags?_of_unresolved_eq hf.unresolved x).symm.trans htags
    rw [valueWithin_of_unresolved_eq hf.unresolved n hd htags] at hv
    rw [segmentsWithin_succ, hd, Option.bind_some, htags]
    have hvalue : ∀ t w, c₀.valueWithin n t = some w → c₀.value? t = some w :=
      fun t w hw => value?_of_within hw
    have hcontent : ∀ content ∈ d.kind.contents, ∀ {v},
        c₀.sourceValue (c₀.valueWithin n) d.document tags.language content.source = some v →
          ∃ s, content.segments (c.segmentsWithin n) tags = some s ∧ Spells s v := by
      intro content hmem v hv
      have hmatches := hf.contents hd hmem (hresolved.handled content hmem) htags₀
      have hvoices : ∀ t ∈ Inline.shownTargets content.inlines,
          Inline.Voices (c₀.valueWithin n) (c.segmentsWithin n) t := by
        intro t ht w hw
        have hlink := DefinitionKind.mem_links_of_text hmem (Inline.targets_of_shownTargets ht)
        exact ih (hlinks t hlink) hw
      exact hmatches.spells hvalue hvoices hv (hfont.effectiveTags? htags₀)
    rcases hk : d.kind with body | content | content | reference | value | value | runs
    case stanza | paragraph =>
      rw [hk] at hv
      exact hcontent content (by simp [hk, DefinitionKind.contents]) hv
    case «section» =>
      rw [hk] at hv
      simp only [kindValue, Option.bind_eq_bind, Option.bind_eq_some_iff] at hv
      obtain ⟨titles, htitles, children, hchildren, hv⟩ := hv
      cases hv
      have hchild : ∀ y ∈ body.children, c.Resolved y := by
        intro y hy
        exact hlinks y (DefinitionKind.mem_links_of_child (by rw [hk]; exact hy))
      obtain ⟨ss, hss, hspells⟩ := mapM_spells (fun content hmem v hv =>
        hcontent content (by rw [hk]; exact hmem) hv) htitles
      obtain ⟨ss', hss', hspells'⟩ := mapM_spells (fun y hy v hv => ih (hchild y hy) hv) hchildren
      refine ⟨[{ text := "\n" }].intercalate (ss ++ ss'), ?_, ?_⟩
      · simp only [DefinitionKind.segments, hss, hss', Option.bind_eq_bind, Option.bind_some]
        rfl
      · have hparts := List.rel_append hspells hspells'
        exact .flatten (forall₂_intersperse (fun _ => .singleton "\n") hparts)
    case partReference =>
      rw [hk] at hv
      obtain ⟨target, htarget⟩ := Option.isSome_iff_exists.1 (hresolved.aimed reference hk)
      simp only [kindValue, hf.targets hd hk htarget, Option.bind_some] at hv
      simp only [DefinitionKind.segments, htarget]
      have hlink : d.kind.target? = some target := by rw [hk]; exact htarget
      exact ih (hlinks target (DefinitionKind.mem_links_of_target hlink)) hv
    case boolean | integer =>
      rw [hk] at hv
      cases hv
      exact ⟨_, rfl, .singleton _⟩
    case multilingual =>
      rw [hk] at hv
      cases hv
      obtain ⟨d₀, hd₀, hk₀⟩ := definition?_multilingual hf.unresolved hd hk
      refine ⟨_, rfl, ?_⟩
      unfold valueSegments
      rcases hrun : (runs.findKnown? .default).or runs.runs[0]? with _ | run
      · exact .nil
      · have hmem : run ∈ runs.runs := by
          rcases Option.or_eq_some_iff.1 hrun with hrun | ⟨-, hrun⟩
          · exact RunCollection.mem_of_findKnown? hrun
          · exact Array.mem_of_getElem? hrun
        dsimp only
        rw [(hfont.runs hd₀ hk₀ run hmem).typedFont?]
        exact .singleton run.text

/-- A resolved definition of a faithful context speaks its value. -/
theorem Faithful.voices (hf : c₀.Faithful c) (hfont : c₀.IsFontless) {t : DefinitionId}
    (hr : c.Resolved t) : Inline.Voices c₀.value? c.segments? t := by
  intro w hw
  obtain ⟨s, hs, hspells⟩ := hf.spells hfont _ hr hw
  exact ⟨s, segments?_of_within hs, hspells⟩

end Context

end

end Rubric
