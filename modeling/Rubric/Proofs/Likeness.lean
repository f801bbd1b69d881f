/-
  Rubric — the laws of comparing languages.

  A lect has a folded form, in which nothing that a comparison overlooks is left:
  the letter case of its subtags, and the tag of a language that is known.

  * `Lect.same_iff`, `Lect.sameAll_iff`: lects are the same when their folded forms
    are equal, so being the same is an equivalence relation;
  * `Lect.compatibleAll_refl`, `compatibleAll_comm`, `compatibleAll_of_sameAll`: lects
    that do not contradict each other;
  * `Multilingual.position?` is the place of the first value that answers to a
    language, and `find?_of_position?` that it is the one found;
  * **`Language.laws_isEquivalent`**: strictly, and by language only, languages fall into
    classes; with wildcards the comparison is reflexive and symmetric; the strict one
    implies the others, and a value that it finds they find no later.
-/
import Rubric.Multilingual

namespace Rubric

open Text

/-! ## Subtags -/

theorem eqIgnoringAsciiCase_iff {a b : String} :
    eqIgnoringAsciiCase a b = true ↔ foldAscii a = foldAscii b :=
  beq_iff_eq

/-- Optional subtags are the same when they are equal in lowercase. -/
theorem sameSubtag_iff {a b : Option String} :
    sameSubtag a b = true ↔ a.map foldAscii = b.map foldAscii := by
  cases a <;> cases b <;> simp [sameSubtag, eqIgnoringAsciiCase_iff]

@[simp]
theorem compatibleSubtag_refl (a : Option String) : compatibleSubtag a a = true := by
  cases a <;> simp [compatibleSubtag, eqIgnoringAsciiCase_iff]

theorem compatibleSubtag_comm (a b : Option String) :
    compatibleSubtag a b = compatibleSubtag b a := by
  cases a <;> cases b <;> simp [compatibleSubtag, eqIgnoringAsciiCase, Bool.beq_comm]

/-- Subtags that are the same do not contradict each other. -/
theorem compatibleSubtag_of_sameSubtag {a b : Option String} (h : sameSubtag a b = true) :
    compatibleSubtag a b = true := by
  cases a <;> cases b <;> simp_all [sameSubtag, compatibleSubtag]

/-! ## Lects -/

namespace Lect

/-- A lect without what a comparison overlooks: letter case, and the tag beside a known
    language. -/
def folded (l : Lect) : Lect where
  known := l.known
  tag := if l.known = .unknown then foldAscii l.tag else l.known.tag
  region := l.region.map foldAscii
  variant := l.variant.map foldAscii

/-- Two lects are of one language when their folded forms have the same language and tag. -/
theorem sameLanguage_iff {a b : Lect} :
    a.sameLanguage b = true ↔ a.folded.known = b.folded.known ∧ a.folded.tag = b.folded.tag := by
  simp only [sameLanguage, folded]
  split
  · rename_i h
    simp [h.1, h.2, eqIgnoringAsciiCase_iff]
  · rename_i h
    rw [beq_iff_eq]
    refine ⟨fun he => ⟨he, ?_⟩, And.left⟩
    -- not both are unknown, and they are equal, so none is
    have hknown : a.known ≠ .unknown := fun hu => h ⟨hu, he ▸ hu⟩
    rw [if_neg hknown, if_neg (he ▸ hknown), he]

/-- Two lects are the same when their folded forms are equal. -/
theorem same_iff {a b : Lect} : a.same b = true ↔ a.folded = b.folded := by
  simp only [same, Bool.and_eq_true, sameLanguage_iff, sameSubtag_iff]
  constructor
  · rintro ⟨⟨⟨hknown, htag⟩, hregion⟩, hvariant⟩
    simp only [folded, Lect.mk.injEq]
    exact ⟨hknown, htag, hregion, hvariant⟩
  · intro h
    exact ⟨⟨⟨congrArg known h, congrArg tag h⟩, congrArg region h⟩, congrArg variant h⟩

/-- Lects are the same one by one when the lists of their folded forms are equal. -/
theorem sameAll_iff {as bs : List Lect} :
    sameAll as bs = true ↔ as.map folded = bs.map folded := by
  induction as generalizing bs with
  | nil => cases bs <;> simp [sameAll]
  | cons a as ih => cases bs <;> simp [sameAll, same_iff, ih]

theorem sameLanguage_refl (a : Lect) : a.sameLanguage a = true :=
  sameLanguage_iff.2 ⟨rfl, rfl⟩

theorem sameLanguage_comm (a b : Lect) : a.sameLanguage b = b.sameLanguage a := by
  rw [Bool.eq_iff_iff, sameLanguage_iff, sameLanguage_iff, eq_comm, eq_comm (a := a.folded.tag)]

theorem sameLanguage_trans {a b c : Lect} (h : a.sameLanguage b = true)
    (h' : b.sameLanguage c = true) : a.sameLanguage c = true := by
  rw [sameLanguage_iff] at *
  exact ⟨h.1.trans h'.1, h.2.trans h'.2⟩

@[simp]
theorem compatible_refl (a : Lect) : a.compatible a = true := by
  simp [compatible, sameLanguage_refl]

theorem compatible_comm (a b : Lect) : a.compatible b = b.compatible a := by
  rw [compatible, compatible, sameLanguage_comm, compatibleSubtag_comm a.region,
    compatibleSubtag_comm a.variant]

theorem compatible_of_same {a b : Lect} (h : a.same b = true) : a.compatible b = true := by
  simp only [same, compatible, Bool.and_eq_true] at h ⊢
  exact ⟨⟨h.1.1, compatibleSubtag_of_sameSubtag h.1.2⟩, compatibleSubtag_of_sameSubtag h.2⟩

theorem compatibleAll_refl (as : List Lect) : compatibleAll as as = true := by
  induction as with
  | nil => rfl
  | cons a as ih => simp [compatibleAll, ih]

theorem compatibleAll_comm (as bs : List Lect) : compatibleAll as bs = compatibleAll bs as := by
  induction as generalizing bs with
  | nil => cases bs <;> rfl
  | cons a as ih =>
    cases bs with
    | nil => rfl
    | cons b bs => rw [compatibleAll, compatibleAll, Bool.or_comm a.isWildcard, compatible_comm, ih]

/-- Lects that are the same one by one do not contradict each other. -/
theorem compatibleAll_of_sameAll {as bs : List Lect} (h : sameAll as bs = true) :
    compatibleAll as bs = true := by
  induction as generalizing bs with
  | nil => cases bs <;> rfl
  | cons a as ih =>
    cases bs with
    | nil => rfl
    | cons b bs =>
      simp only [sameAll, Bool.and_eq_true] at h
      simp [compatibleAll, compatible_of_same h.1, ih h.2]

end Lect

/-! ## Languages -/

namespace Language

variable {a b : Language} {equivalence : Equivalence}

/-- The strict comparison compares the folded forms of all lects. -/
theorem isEquivalent_strict_iff :
    a.isEquivalent .strict b = true ↔ a.lects.map Lect.folded = b.lects.map Lect.folded :=
  Lect.sameAll_iff

/-- The comparison by language compares the folded language and tag of what is spoken. -/
theorem isEquivalent_languageOnly_iff :
    a.isEquivalent .languageOnly b = true ↔
      a.lect.folded.known = b.lect.folded.known ∧ a.lect.folded.tag = b.lect.folded.tag :=
  Lect.sameLanguage_iff

/-- What is the same strictly is the same at every strength. -/
theorem isEquivalent_of_strict (h : a.isEquivalent .strict b = true) :
    a.isEquivalent equivalence b = true := by
  cases equivalence with
  | strict => exact h
  | wildcards => exact Lect.compatibleAll_of_sameAll h
  | languageOnly =>
    have hlect : a.lect.folded = b.lect.folded := (List.cons.inj (isEquivalent_strict_iff.1 h)).1
    exact isEquivalent_languageOnly_iff.2 ⟨congrArg Lect.known hlect, congrArg Lect.tag hlect⟩

/-- Where neither side is the wildcard, what does not contradict is of one language. -/
theorem isEquivalent_languageOnly_of_wildcards (h : a.isEquivalent .wildcards b = true)
    (ha : a.isWildcard = false) (hb : b.isWildcard = false) :
    a.isEquivalent .languageOnly b = true := by
  have hlects : (a.lect.compatible b.lect && Lect.compatibleAll a.scripts b.scripts) = true := by
    simpa [isEquivalent, lects, Lect.compatibleAll, show a.lect.isWildcard = false from ha,
      show b.lect.isWildcard = false from hb] using h
  simp only [Lect.compatible, Bool.and_eq_true] at hlects
  exact hlects.1.1.1

end Language

/-! ## Look-up -/

namespace Multilingual

variable {α : Type} [Multilingual α]

/-- The language of the value is taken for the given one. -/
def answersTo (equivalence : Equivalence) (language : Language) (item : α) : Bool :=
  match language? item with
  | some l => l.isEquivalent equivalence language
  | none => false

/-- The position of the first value that answers to a language. -/
def position? (items : List α) (equivalence : Equivalence) (language : Language) : Option Nat :=
  items.findIdx? (answersTo equivalence language)

variable {items : List α} {equivalence : Equivalence} {language : Language} {i : Nat}

theorem find?_eq_or : find? items equivalence language =
    (items.find? (answersTo equivalence language)).or (first? items .default) :=
  rfl

/-- The value at that position is the value for the language. -/
theorem find?_of_position? (h : position? items equivalence language = some i) :
    find? items equivalence language = items[i]? := by
  obtain ⟨hlt, -⟩ := List.findIdx?_eq_some_iff_findIdx_eq.1 h
  have hfound : items.find? (answersTo equivalence language) = items[i]? := by
    rw [List.find?_eq_bind_findIdx?_getElem?, ← position?, h, Option.bind_some]
  rw [find?_eq_or, hfound, List.getElem?_eq_getElem hlt, Option.some_or]

/-- A value that answers strictly answers at every strength. -/
theorem answersTo_of_strict {item : α} (h : answersTo .strict language item = true) :
    answersTo equivalence language item = true := by
  unfold answersTo at h ⊢
  split at h
  · exact Language.isEquivalent_of_strict h
  · cases h

/-- Where a value answers, the first that does stands there or earlier. -/
theorem exists_position?_le {item : α} (hi : items[i]? = some item)
    (hitem : answersTo equivalence language item = true) :
    ∃ j ≤ i, position? items equivalence language = some j := by
  obtain ⟨hlt, rfl⟩ := List.getElem?_eq_some_iff.1 hi
  have hle : items.findIdx (answersTo equivalence language) ≤ i :=
    Nat.le_of_not_lt fun hlt' => by simpa [hitem] using List.not_of_lt_findIdx hlt'
  exact ⟨_, hle, List.findIdx?_eq_some_iff_findIdx_eq.2 ⟨Nat.lt_of_le_of_lt hle hlt, rfl⟩⟩

end Multilingual

/-! ## The laws -/

namespace Language

/-- **Comparing languages obeys the laws.**  For all languages: strictly and by language only,
    being the same is reflexive, symmetric and transitive; with wildcards it is reflexive and
    symmetric.  Languages that are the same strictly are the same at every strength, and
    languages that are the same with wildcards are so by language only where neither is the
    wildcard.  So whatever values are looked through, where one of them answers to a language
    strictly, at each strength a value answers that stands there or earlier, and the first that
    answers is the one found. -/
theorem laws_isEquivalent :
    (∀ equivalence ≠ .wildcards, ∀ a b c : Language,
      a.isEquivalent equivalence a = true ∧
      (a.isEquivalent equivalence b = true → b.isEquivalent equivalence a = true) ∧
      (a.isEquivalent equivalence b = true → b.isEquivalent equivalence c = true →
        a.isEquivalent equivalence c = true)) ∧
    (∀ a b : Language,
      a.isEquivalent .wildcards a = true ∧
      (a.isEquivalent .wildcards b = true → b.isEquivalent .wildcards a = true)) ∧
    (∀ equivalence, ∀ a b : Language,
      a.isEquivalent .strict b = true → a.isEquivalent equivalence b = true) ∧
    (∀ a b : Language, a.isEquivalent .wildcards b = true →
      a.isWildcard = false → b.isWildcard = false → a.isEquivalent .languageOnly b = true) ∧
    ∀ (α : Type) [Multilingual α] (items : List α) (language : Language) (i : Nat) (item : α),
      items[i]? = some item → Multilingual.answersTo .strict language item = true →
      ∀ equivalence, ∃ j ≤ i, Multilingual.position? items equivalence language = some j ∧
        Multilingual.find? items equivalence language = items[j]? := by
  refine ⟨?classes, ?wildcards, fun _ _ _ => isEquivalent_of_strict,
    fun _ _ => isEquivalent_languageOnly_of_wildcards, ?found⟩
  case classes =>
    intro equivalence hne a b c
    cases equivalence with
    | strict =>
      exact ⟨isEquivalent_strict_iff.2 rfl,
        fun h => isEquivalent_strict_iff.2 (isEquivalent_strict_iff.1 h).symm,
        fun h h' => isEquivalent_strict_iff.2
          ((isEquivalent_strict_iff.1 h).trans (isEquivalent_strict_iff.1 h'))⟩
    | wildcards => exact absurd rfl hne
    | languageOnly =>
      exact ⟨Lect.sameLanguage_refl _, fun h => (Lect.sameLanguage_comm _ _).trans h,
        fun h h' => Lect.sameLanguage_trans h h'⟩
  case wildcards =>
    exact fun a b => ⟨Lect.compatibleAll_refl _, fun h => (Lect.compatibleAll_comm _ _).trans h⟩
  case found =>
    intro α _ items language i item hi hitem equivalence
    obtain ⟨j, hle, hj⟩ : ∃ j ≤ i, Multilingual.position? items equivalence language = some j :=
      Multilingual.exists_position?_le hi (Multilingual.answersTo_of_strict hitem)
    exact ⟨j, hle, hj, Multilingual.find?_of_position? hj⟩

/-- Behind a run in Coptic, one in Bohairic as it is written in English letters answers strictly
    to that language in capitals; the two are of one language, and with wildcards the run in
    front answers. -/
theorem laws_isEquivalent_of_dialect :
    let runs : List Run := [⟨"a", { language := some (.ofKnown .coptic) }⟩,
      ⟨"b", { language := some (((ofKnown .coptic).withVariant "boh").withSecondary
        (.ofKnown .english)) }⟩]
    let capitals := ((ofKnown .coptic).withVariant "BOH").withSecondary (.ofKnown .english)
    Multilingual.position? runs .strict capitals = some 1 ∧
      Multilingual.position? runs .wildcards capitals = some 0 ∧
      (∃ j ≤ 1, Multilingual.position? runs .wildcards capitals = some j ∧
        Multilingual.find? runs .wildcards capitals = runs[j]?) ∧
      (ofKnown .coptic).isEquivalent .languageOnly capitals = true := by
  intro runs capitals
  obtain ⟨-, -, -, hlanguage, hfound⟩ := laws_isEquivalent
  exact ⟨by decide +kernel, by decide +kernel,
    hfound Run runs capitals 1 _ rfl (by decide +kernel) .wildcards,
    hlanguage _ capitals (by decide +kernel) (by decide +kernel) (by decide +kernel)⟩

/-- Plain Coptic matches both dialects with wildcards, and they do not match one another. -/
example : let dialect := (ofKnown .coptic).withVariant
    (dialect "boh").isEquivalent .wildcards (.ofKnown .coptic) = true ∧
      (ofKnown .coptic).isEquivalent .wildcards (dialect "sah") = true ∧
      (dialect "boh").isEquivalent .wildcards (dialect "sah") = false := by
  decide +kernel

end Language

end Rubric
