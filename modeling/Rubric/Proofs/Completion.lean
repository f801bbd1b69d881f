/-
  Rubric — commands that come to an end.

  A command stops short of an answer only where it renders what has no text, or
  runs a pass that has no end.

  * `Context.Presents c p`: all that shows in the inline has a text;
  * one lemma for each kind of command; **`Invocation.endsFrom_run`**: for all of
    them.
-/
import Rubric.Proofs.Circles
import Rubric.Proofs.Ending

namespace Rubric

open Context Engine Text

variable {c : Context}

/-! ## What is rendered -/

namespace Context

/-- All that shows in the inline has a text. -/
def Presents (c : Context) (p : Inline) : Prop :=
  ∀ t ∈ Inline.shownTargets [p], (c.segments? t).isSome

theorem Presents.warnAll {p : Inline} (h : c.Presents p) (warnings : List Warning) :
    (c.warnAll warnings).Presents p := by
  have hsegments : (c.warnAll warnings).segments? = c.segments? := segments?_of_definitions_eq rfl
  rw [Presents, hsegments]
  exact h

end Context

section
variable {α : Type} {p : Inline} (h : c.Presents p)
include h

theorem endsFrom_text_bind {f : String → Engine α}
    (hf : ∀ s, c.inlineText? p = some s → (f s).EndsFrom c) : (text p >>= f).EndsFrom c := by
  have hs : (c.inlineText? p).isSome := by
    rw [inlineText?, Option.isSome_map]
    exact p.segments_isSome h
  rw [text, bind_assoc]
  exact .get_bind (.ofOption_bind hs hf)

theorem endsFrom_normalizedText_bind {tags : Tags} {f : String → Engine α}
    (hf : ∀ s warnings, (f s).EndsFrom (c.warnAll warnings)) :
    (normalizedText tags p >>= f).EndsFrom c := by
  have hs : (c.inlineSegments? tags p).isSome := p.segments_isSome h
  rw [normalizedText, bind_assoc]
  refine .get_bind ?_
  rw [bind_assoc]
  refine .ofOption_bind hs fun segments _ => .then ⟨_, _, rfl⟩ fun s c₁ hn => ?_
  obtain ⟨rfl, rfl⟩ := gives_normalize_ok.1 hn
  exact hf _ _

end

/-! ## Commands -/

namespace Invocation

variable {handle : DefinitionId → Engine Unit} (call : Invocation)

theorem endsFrom_analyzer_bind {α : Type} {f : Analyzer → Engine α}
    (hf : ∀ analyzer, (f analyzer).EndsFrom c) : (call.analyzer >>= f).EndsFrom c := by
  refine .then ?_ fun analyzer c₁ h => ?_
  · unfold analyzer
    split
    · exact .fail _
    · refine .get_bind ?_
      split
      · exact .pure _
      · exact .fail _
  · obtain rfl := gives_analyzer_ok h
    exact hf analyzer

theorem endsFrom_expandAbbreviation {ps : List Inline} (hps : ∀ p ∈ ps, c.Presents p) :
    (call.expandAbbreviation ps).EndsFrom c := by
  have hexpand : ∀ key keep, (expandAbbreviation.expand call key keep).EndsFrom c := by
    intro key keep
    refine call.endsFrom_analyzer_bind fun analyzer => ?_
    split
    · exact .pure _
    · exact .fail _
  rcases ps with _ | ⟨key, _ | ⟨keep, _ | _⟩⟩
  case cons.nil => exact endsFrom_text_bind (hps key (by simp)) fun s _ => hexpand _ _
  case cons.cons.nil =>
    refine endsFrom_text_bind (hps keep (by simp)) fun s _ => ?_
    split
    · exact endsFrom_text_bind (hps key (by simp)) fun s _ => hexpand _ _
    · exact .fail _
  all_goals exact .fail _

theorem endsFrom_transcribe {ps : List Inline} (hps : ∀ p ∈ ps, c.Presents p) :
    (call.transcribe ps).EndsFrom c := by
  rcases ps with _ | ⟨p, _ | _⟩
  case cons.nil =>
    refine endsFrom_normalizedText_bind (hps p (by simp)) fun s warnings => ?_
    exact call.endsFrom_analyzer_bind fun analyzer => .pure _
  all_goals exact .fail _

theorem endsFrom_languageOf_bind {α : Type} (tag : String) {f : Language → Engine α}
    (hf : ∀ language, (f language).EndsFrom c) : (call.languageOf tag >>= f).EndsFrom c := by
  refine .then ?_ fun language c₁ h => ?_
  · unfold languageOf
    split
    · exact .pure _
    · exact .fail _
  · obtain ⟨-, rfl⟩ := gives_languageOf_ok h
    exact hf language

theorem endsFrom_transliterate {ps : List Inline} (hps : ∀ p ∈ ps, c.Presents p) :
    (call.transliterate ps).EndsFrom c := by
  have hwrite : ∀ {c : Context} tag text separator,
      (transliterate.write call tag text separator).EndsFrom c := by
    intro c tag text separator
    refine call.endsFrom_languageOf_bind tag fun target => .get_bind ?_
    refine call.endsFrom_analyzer_bind fun analyzer => ?_
    split
    · exact .pure _
    · exact .fail _
  rcases ps with _ | ⟨target, _ | ⟨p, _ | ⟨separator, _ | _⟩⟩⟩
  case cons.cons.nil =>
    refine endsFrom_text_bind (hps target (by simp)) fun tag _ => ?_
    exact endsFrom_normalizedText_bind (hps p (by simp)) fun text warnings => hwrite _ _ _
  case cons.cons.cons.nil =>
    refine endsFrom_text_bind (hps target (by simp)) fun tag _ => ?_
    refine endsFrom_normalizedText_bind (hps p (by simp)) fun text warnings => ?_
    refine endsFrom_text_bind ((hps separator (by simp)).warnAll warnings) fun s _ => ?_
    exact hwrite _ _ _
  all_goals exact .fail _

theorem endsFrom_insertBoolean : call.insertBoolean.EndsFrom c := by
  have hmake : ∀ {c : Context} key value, (insertBoolean.make key value).EndsFrom c := fun _ _ =>
    ⟨_, _, gives_modifyGet.2 ⟨rfl, rfl⟩⟩
  have hshared : ∀ {c : Context} key value found,
      (insertBoolean.shared key value found).EndsFrom c := by
    intro c key value found
    refine .get_bind ?_
    split
    · split
      · exact .pure _
      · exact hmake _ _
    · exact hmake _ _
  refine .then ⟨_, _, rfl⟩ fun found c₁ _ => .then (hshared _ _ found) fun target c₂ _ => ?_
  exact .modify_bind (.pure _)

theorem endsFrom_addFootnote (ps : List Inline) : (call.addFootnote ps).EndsFrom c := by
  have hnote : ∀ annotated body, (addFootnote.note call annotated body).EndsFrom c :=
    fun _ _ => .modify_bind (.get_bind (.pure _))
  rcases ps with _ | ⟨a, _ | ⟨b, _ | _⟩⟩
  case cons.nil => exact hnote _ _
  case cons.cons.nil => exact hnote _ _
  all_goals exact .fail _

theorem endsFrom_conditionValue {p : Inline} (hp : c.Presents p)
    (htarget : ∀ t, p.target? = some t → c.Has t) : (call.conditionValue p).EndsFrom c := by
  obtain ⟨found, hfound⟩ : ∃ found, (conditionValue.booleanOf p).Gives c (.ok found) c := by
    unfold conditionValue.booleanOf
    split
    · exact ⟨none, gives_pure.2 ⟨rfl, rfl⟩⟩
    · rename_i t ht
      obtain ⟨d, hd⟩ := has_iff.1 (htarget t ht)
      simp only [gives_definition_bind]
      rcases hk : d.kind with _ | _ | _ | _ | value | _ | _
      case boolean => exact ⟨some value, d, hd, by rw [hk]; exact gives_pure.2 ⟨rfl, rfl⟩⟩
      all_goals exact ⟨none, d, hd, by rw [hk]; exact gives_pure.2 ⟨rfl, rfl⟩⟩
  refine .bind hfound fun found _ => ?_
  split
  · exact .pure _
  · refine endsFrom_text_bind hp fun s _ => ?_
    split
    · exact .pure _
    · exact .fail _

/-- A command that inserts a definition ends if the pass of the definition does. -/
theorem endsFrom_insertDefinition {ps : List Inline} (hlinked : c.IsLinked)
    (hps : ∀ p ∈ ps, c.Presents p)
    (hh : ∀ y, c.Handles call.scope.document y .definition ps →
      (handle y).EndsFrom (c.addReference y call.scope.owner)) :
    (call.insertDefinition handle ps).EndsFrom c := by
  rcases ps with _ | ⟨p, _ | _⟩
  case cons.nil =>
    refine endsFrom_text_bind (hps p (by simp)) fun key hkey => ?_
    refine .get_bind (.ofExcept_bind fun target htarget => .modify_bind ?_)
    have hl := lookup?_of_lookup htarget
    obtain ⟨d, hd⟩ := has_iff.1 (hlinked.lookup? hl)
    obtain ⟨references, hd'⟩ := definition?_addReference hd target call.scope.owner
    refine .definition_bind hd' ?_
    split
    · refine .get_bind ?_
      split
      · exact .pure _
      · exact .fail _
    · exact .then (hh target ⟨p, key, rfl, hkey, hl⟩) fun _ _ _ => .pure _
  all_goals exact .fail _

/-- The separator where a command gives none is found if the pass of its definition ends, and
    leaves it with a text. -/
theorem endsFrom_defaultSeparator (hlinked : c.IsLinked)
    (hh : ∀ y, c.lookup? separatorKey call.scope.document = some y →
      (handle y).EndsFrom (c.addReference y call.scope.owner) ∧
        ∀ c₁, (handle y).Gives (c.addReference y call.scope.owner) (.ok ()) c₁ →
          (c₁.segments? y).isSome) :
    (call.defaultSeparator handle).EndsFrom c := by
  refine .then ⟨_, _, rfl⟩ fun found c₁ hfound => ?_
  cases hfound
  rcases hl : c.lookup? separatorKey call.scope.document with _ | target
  · exact .get_bind (.pure _)
  · refine .modify_bind ?_
    obtain ⟨d, hd⟩ := has_iff.1 (hlinked.lookup? hl)
    obtain ⟨references, hd'⟩ := definition?_addReference hd target call.scope.owner
    refine .definition_bind hd' ?_
    obtain ⟨hends, hsegments⟩ := hh target hl
    split
    · exact .get_bind (.pure _)
    · refine .then hends fun _ c₁ hgives => .get_bind ?_
      refine .ofOption_bind (hsegments c₁ hgives) fun segments _ => ?_
      exact .then ⟨_, _, rfl⟩ fun _ _ _ => .pure _

theorem endsFrom_joinLines {ps : List Inline} (hlinked : c.IsLinked)
    (hps : ∀ p ∈ CommandKind.lines.rendered ps, c.Presents p)
    (hh : ∀ y, c.lookup? separatorKey call.scope.document = some y →
      (handle y).EndsFrom (c.addReference y call.scope.owner) ∧
        ∀ c₁, (handle y).Gives (c.addReference y call.scope.owner) (.ok ()) c₁ →
          (c₁.segments? y).isSome) :
    (call.joinLines handle ps).EndsFrom c := by
  rcases ps with _ | ⟨separator, lines⟩
  · exact .fail _
  · refine endsFrom_text_bind (hps separator (by simp [CommandKind.rendered, CommandKind.plain]))
      fun s _ => ?_
    split
    · exact .then (call.endsFrom_defaultSeparator hlinked hh) fun _ _ _ => .pure _
    · exact .then (.pure _) fun _ _ _ => .pure _

/-- **A command ends** if what it renders has a text and the passes that it runs end. -/
theorem endsFrom_run {kind : CommandKind} {ps : List Inline} (hlinked : c.IsLinked)
    (hps : ∀ p ∈ kind.rendered ps, c.Presents p)
    (hh : ∀ y, c.Handles call.scope.document y kind ps →
      (handle y).EndsFrom (c.addReference y call.scope.owner) ∧ (kind = .lines →
        ∀ c₁, (handle y).Gives (c.addReference y call.scope.owner) (.ok ()) c₁ →
          (c₁.segments? y).isSome)) :
    (call.run handle kind ps).EndsFrom c := by
  cases kind with
  | definition => exact call.endsFrom_insertDefinition hlinked hps fun y hy => (hh y hy).1
  | boolean => exact call.endsFrom_insertBoolean
  | lines =>
    refine call.endsFrom_joinLines hlinked hps fun y hy => ?_
    obtain ⟨hends, hsegments⟩ := hh y hy
    exact ⟨hends, hsegments rfl⟩
  | footnote => exact call.endsFrom_addFootnote ps
  | abbreviation => exact call.endsFrom_expandAbbreviation hps
  | ipaTranscribe => exact call.endsFrom_transcribe hps
  | transliterate => exact call.endsFrom_transliterate hps
  | ternary | language => exact .fail _

end Invocation

end Rubric
