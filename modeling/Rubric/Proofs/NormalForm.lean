/-
  Rubric — each language that is read has one form.

  Reading a tag settles how each subtag is spelled.  A comparison overlooks letter case, but
  there is nothing left of it that could differ; and the text of a language is cut where it was
  put together.

  * `Lect.restored`: a normal lect is regained from its folded form;
  * `Language.readLects?_spell`: the text of normal lects is read as the lects, where nothing is
    trimmed;
  * **`Language.tfae_of_read?`**: languages that are read are equal if they compare as the same
    strictly, and if they have the same text.
-/
import Rubric.Proofs.Likeness
import Rubric.Proofs.Tag

namespace Rubric

open Text

/-! ## Folded forms -/

/-- Uppercase is the same of what is in lowercase. -/
theorem Text.raiseAscii_foldAscii (s : String) : raiseAscii (foldAscii s) = raiseAscii s := by
  simp [raiseAscii, foldAscii, Function.comp_def]

namespace Lect

/-- A folded lect with its region as it is read. -/
def restored (l : Lect) : Lect :=
  { l with region := l.region.map raiseAscii }

/-- The tag of a normal lect is the one it is compared by. -/
theorem tag_folded {l : Lect} (h : IsNormal l) : l.folded.tag = l.tag := by
  obtain ⟨hknown, htag⟩ : l.known = (ofSubtag l.tag).known ∧ l.tag = (ofSubtag l.tag).tag :=
    ⟨(congrArg known h.ofSubtag).symm, (congrArg tag h.ofSubtag).symm⟩
  rw [folded]
  by_cases hstar : l.tag = "*"
  · rw [hstar, ofSubtag, if_pos rfl] at hknown
    rw [hknown, hstar]
    rfl
  rcases hof : KnownLanguage.ofTag? l.tag with _ | known
  · have hunknown : ofSubtag l.tag = ofUnknown (foldAscii l.tag) := by
      rw [ofSubtag, if_neg hstar, hof]
    rw [hunknown] at hknown htag
    replace hknown : l.known = .unknown := hknown
    rw [if_pos hknown]
    exact htag.symm
  · have hlect : ofSubtag l.tag = ofKnown known := by
      rw [ofSubtag, if_neg hstar, hof]
    rw [hlect] at hknown htag
    replace hknown : l.known = known := hknown
    replace htag : l.tag = known.tag := htag
    rw [hknown, htag]
    split
    · rename_i hunknown
      rw [hunknown]
      rfl
    · rfl

/-- **A normal lect is regained from its folded form.** -/
theorem restored_folded {l : Lect} (h : IsNormal l) : l.folded.restored = l := by
  have hregion : (l.region.map foldAscii).map raiseAscii = l.region := by
    conv_rhs => rw [← h.raised]
    rw [Option.map_map]
    exact congrArg (Option.map · l.region) (funext raiseAscii_foldAscii)
  have htag := tag_folded h
  have hvariant := h.folded
  obtain ⟨known, tag, region, variant⟩ := l
  simp only [folded, restored, Lect.mk.injEq] at *
  exact ⟨trivial, htag, hregion, hvariant⟩

end Lect

/-! ## Texts -/

namespace Language

variable {s t : String} {a b : Language} {lects : List Lect}

theorem lects_injective (h : a.lects = b.lects) : a = b := by
  obtain ⟨lect, scripts⟩ := a
  obtain ⟨lect', scripts'⟩ := b
  obtain ⟨rfl, rfl⟩ := List.cons.inj h
  rfl

/-- The text of normal lects is read as the lects. -/
theorem readLects?_spell (hne : lects ≠ []) (h : ∀ lect ∈ lects, lect.IsNormal) :
    readLects? (spell lects) = some lects := by
  induction lects with
  | nil => exact absurd rfl hne
  | cons lect lects ih =>
    have hlect : lect.IsNormal := h lect (by simp)
    cases lects with
    | nil =>
      have hspell : spell [lect] = lect.toString.toList := by simp [spell]
      rw [hspell, readLects?_single (Lect.not_slash_of_isLegible hlect.toIsLegible),
        Lect.dropWhile_of_isLegible hlect.toIsLegible, Lect.read?_toString hlect, Option.map_some]
    | cons next lects =>
      have hrest := ih (by simp) fun l hl => h l (by simp [hl])
      rw [spell_cons_cons, readLects?_normal_cons hlect, hrest, Option.map_some]

/-- Lects that are normal are regained from their folded forms. -/
theorem map_restored_folded (h : ∀ lect ∈ lects, lect.IsNormal) :
    (lects.map Lect.folded).map Lect.restored = lects := by
  have heach : ∀ lect ∈ lects, lect.folded.restored = lect :=
    fun lect hlect => Lect.restored_folded (h lect hlect)
  rw [List.map_map]
  exact (List.map_congr_left heach).trans lects.map_id

/-- **Each language that is read has one form.**  For any two texts that are read as languages, at
    whatever depth of scripts: the languages are equal exactly when they are taken for the same
    strictly, and exactly when their texts are equal. -/
theorem tfae_of_read? (ha : read? s = some a) (hb : read? t = some b) :
    [a = b, a.isEquivalent .strict b = true, a.toString = b.toString].TFAE := by
  have hna := isNormal_of_read? ha
  have hnb := isNormal_of_read? hb
  tfae_have 1 → 2 := by
    rintro rfl
    exact isEquivalent_strict_iff.2 rfl
  tfae_have 2 → 1 := fun h => lects_injective <| by
    rw [← map_restored_folded hna, isEquivalent_strict_iff.1 h, map_restored_folded hnb]
  tfae_have 1 → 3 := by
    rintro rfl
    rfl
  tfae_have 3 → 1 := fun h => lects_injective <| Option.some.inj <| by
    rw [← readLects?_spell (by simp [lects]) hna, ← toList_toString, h, toList_toString,
      readLects?_spell (by simp [lects]) hnb]
  tfae_finish

/-- Two spellings of one language, with blank characters, a further tag of Coptic, separators of
    both sorts and letters in either case; and a language that differs from it in its script
    only. -/
theorem tfae_of_read?_of_spellings :
    ∃ a b d, read? " CR_eg-BOH/ EN-us " = some a ∧ read? "cop-boh-EG/en_US" = some b ∧
      read? "cop-boh-EG/en" = some d ∧ a.toString = "cop-EG-boh/en-US" ∧ a = b ∧
      a.isEquivalent .strict b = true ∧ a ≠ d ∧ a.isEquivalent .strict d = false := by
  have ha : read? " CR_eg-BOH/ EN-us " =
      some ⟨⟨.coptic, "cop", some "EG", some "boh"⟩, [⟨.english, "en", some "US", none⟩]⟩ := rfl
  have hb : read? "cop-boh-EG/en_US" =
      some ⟨⟨.coptic, "cop", some "EG", some "boh"⟩, [⟨.english, "en", some "US", none⟩]⟩ := rfl
  have hd : read? "cop-boh-EG/en" =
      some ⟨⟨.coptic, "cop", some "EG", some "boh"⟩, [⟨.english, "en", none, none⟩]⟩ := rfl
  have hsame := tfae_of_read? ha hb
  have hother := tfae_of_read? ha hd
  have hequal := (hsame.out 0 2).2 rfl
  have hne : ¬ _ := fun h => absurd ((hother.out 0 2).1 h) (by decide +kernel)
  refine ⟨_, _, _, ha, hb, hd, rfl, hequal, (hsame.out 0 1).1 hequal, hne, ?_⟩
  exact Bool.eq_false_iff.2 fun h => hne ((hother.out 0 1).2 h)

end Language

end Rubric
