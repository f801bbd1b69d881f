/-
  Rubric — lects from their subtags.

  A lect is written as its subtags with hyphens between them, and read by cutting a text at
  its separators.  Reading recases the subtags; no separator, slash or blank character is
  made or lost by that.

  * `IsRecasing`: a change of letter case; `IsSubtag`: a text that can stand between
    separators;
  * `Lect.read?_append`: a language with more subtags behind it is read subtag by subtag;
  * `Lect.IsLegible`: a lect whose text can be cut into what it was put together from, and
    `Lect.read?_of_isLegible`: what is read of it;
  * `Lect.IsNormal`: a lect as reading leaves it, `Lect.isNormal_of_read?`;
  * **`Lect.read?_toString`**: the text of a normal lect is read as the lect;
  * `Lect.dropEndWhile_of_isLegible`, `Lect.read?_dropEndWhile_ne`: what is lost where blank
    characters at the end of a text are dropped.
-/
import Mathlib
import Rubric.Language.Tag

namespace Rubric

/-! ## Trimming -/

namespace Text

variable {p : Char → Bool} {c : Char} {cs : List Char}

theorem dropWhile_append_cons (hc : p c = false) (cs rest : List Char) :
    (cs ++ c :: rest).dropWhile p = cs.dropWhile p ++ c :: rest := by
  rw [List.dropWhile_append]
  split
  · rename_i h
    rw [List.isEmpty_iff.1 h, List.dropWhile_cons_of_neg (by simp [hc]), List.nil_append]
  · rfl

theorem dropEndWhile_append_cons (hc : p c = false) (cs rest : List Char) :
    dropEndWhile p (cs ++ c :: rest) = cs ++ c :: dropEndWhile p rest := by
  simp [dropEndWhile, dropWhile_append_cons hc]

theorem dropWhile_dropEndWhile (p : Char → Bool) (cs : List Char) :
    (dropEndWhile p cs).dropWhile p = dropEndWhile p (cs.dropWhile p) := by
  induction cs with
  | nil => rfl
  | cons c cs ih =>
    cases hc : p c with
    | false =>
      rw [List.dropWhile_cons_of_neg (by simp [hc]), ← List.nil_append (c :: cs),
        dropEndWhile_append_cons hc, List.nil_append, List.dropWhile_cons_of_neg (by simp [hc])]
    | true =>
      rw [List.dropWhile_cons_of_pos hc, ← ih]
      -- the first character goes either way, unless it has gone already
      have hcons : dropEndWhile p (c :: cs) = c :: dropEndWhile p cs ∨
          dropEndWhile p (c :: cs) = [] ∧ dropEndWhile p cs = [] := by
        simp only [dropEndWhile, List.reverse_cons, List.dropWhile_append]
        split <;> simp_all
      obtain h | ⟨h, h'⟩ := hcons
      · rw [h, List.dropWhile_cons_of_pos hc]
      · rw [h, h']

theorem trimEnd_eq_self_iff {s : String} :
    trimEnd s = s ↔ dropEndWhile isBlank s.toList = s.toList := by
  rw [trimEnd, String.ofList_eq]

/-- A text without blank characters is not trimmed. -/
theorem trimEnd_of_forall {s : String} (h : ∀ c ∈ s.toList, isBlank c = false) : trimEnd s = s := by
  rw [trimEnd_eq_self_iff, dropEndWhile, List.dropWhile_eq_self_iff.2, List.reverse_reverse]
  intro hlength
  simpa using h _ (List.mem_reverse.1 (List.getElem_mem hlength))

end Text

/-! ## Letter case -/

namespace Text

/-- A change of letter case: letters become letters, and nothing else changes. -/
def IsRecasing (f : Char → Char) : Prop :=
  ∀ c : Char, f c = c ∨ c.isAlpha = true ∧ (f c).isAlpha = true

theorem isRecasing_toLower : IsRecasing Char.toLower := fun c => by
  by_cases h : c.isUpper = true
  · have halpha : c.isAlpha = true := by simp [Char.isAlpha, h]
    exact .inr ⟨halpha, by simpa using halpha⟩
  · exact .inl (Char.toLower_eq_of_not_isUpper h)

theorem isRecasing_toUpper : IsRecasing Char.toUpper := fun c => by
  by_cases h : c.isLower = true
  · have halpha : c.isAlpha = true := by simp [Char.isAlpha, h]
    exact .inr ⟨halpha, by simpa using halpha⟩
  · exact .inl (Char.toUpper_eq_of_not_isLower h)

/-- What is the same of all letters is kept. -/
theorem IsRecasing.apply_eq {f : Char → Char} (hf : IsRecasing f) {p : Char → Bool} {b : Bool}
    (hp : ∀ c : Char, c.isAlpha = true → p c = b) (c : Char) : p (f c) = p c := by
  obtain h | ⟨h, h'⟩ := hf c
  · rw [h]
  · rw [hp _ h, hp _ h']

/-- A character that is no letter is the image of itself only. -/
theorem IsRecasing.eq_of_apply {f : Char → Char} (hf : IsRecasing f) {c d : Char} (h : f c = d)
    (hd : d.isAlpha = false) : c = d := by
  obtain hc | ⟨-, halpha⟩ := hf c
  · rw [← hc, h]
  · rw [h, hd] at halpha
    cases halpha

theorem isAlpha_iff {c : Char} :
    c.isAlpha = true ↔ 65 ≤ c.toNat ∧ c.toNat ≤ 90 ∨ 97 ≤ c.toNat ∧ c.toNat ≤ 122 := by
  simp [Char.isAlpha, Char.isUpper, Char.isLower, UInt32.le_iff_toNat_le]

theorem isDigit_iff {c : Char} : c.isDigit = true ↔ 48 ≤ c.toNat ∧ c.toNat ≤ 57 := by
  simp [Char.isDigit, UInt32.le_iff_toNat_le]

theorem isBlank_of_lt {c : Char} (h : 33 ≤ c.toNat ∧ c.toNat < 128) : isBlank c = false := by
  have hblank : ∀ n < 128, 33 ≤ n → Stretch.holds blank n = false := by decide
  exact hblank c.toNat h.2 h.1

theorem isBlank_of_isAlpha {c : Char} (h : c.isAlpha = true) : isBlank c = false := by
  rw [isAlpha_iff] at h
  exact isBlank_of_lt (by omega)

theorem isBlank_of_isDigit {c : Char} (h : c.isDigit = true) : isBlank c = false := by
  rw [isDigit_iff] at h
  exact isBlank_of_lt (by omega)

theorem foldAscii_foldAscii (s : String) : foldAscii (foldAscii s) = foldAscii s := by
  simp [foldAscii, Function.comp_def]

theorem raiseAscii_raiseAscii (s : String) : raiseAscii (raiseAscii s) = raiseAscii s := by
  simp [raiseAscii, Function.comp_def]

end Text

open Text

/-! ## Subtags -/

namespace Lect

variable {f : Char → Char} {cs : List Char} {s : String}

/-- No character of a subtag separates subtags or lects. -/
def isPlain (c : Char) : Bool :=
  !isSeparator c && c != '/'

/-- A text that can stand between separators. -/
structure IsSubtag (s : String) : Prop where
  ne_empty : s ≠ ""
  all_isPlain : s.toList.all isPlain = true

theorem IsSubtag.plain (hs : IsSubtag s) {c : Char} (hc : c ∈ s.toList) : isPlain c = true :=
  List.all_eq_true.1 hs.all_isPlain c hc

theorem isPlain_of_isAlpha {c : Char} (h : c.isAlpha = true) : isPlain c = true := by
  have hne : ∀ d : Char, d.isAlpha = false → (c == d) = false := fun d hd =>
    beq_false_of_ne fun he => by rw [he, hd] at h; cases h
  simp [isPlain, isSeparator, bne, hne]

theorem isPlain_of_isDigit {c : Char} (h : c.isDigit = true) : isPlain c = true := by
  have hne : ∀ d : Char, d.isDigit = false → (c == d) = false := fun d hd =>
    beq_false_of_ne fun he => by rw [he, hd] at h; cases h
  simp [isPlain, isSeparator, bne, hne]

theorem not_isSeparator_of_all (hs : s.toList.all isPlain = true) :
    ∀ c ∈ s.toList, isSeparator c = false := fun c hc => by
  have hplain := List.all_eq_true.1 hs c hc
  rw [isPlain, Bool.and_eq_true, Bool.not_eq_true'] at hplain
  exact hplain.1

theorem IsSubtag.recase (hf : IsRecasing f) (hs : IsSubtag s) :
    IsSubtag (String.ofList (s.toList.map f)) where
  ne_empty := fun h => hs.ne_empty (by simpa using congrArg String.toList h)
  all_isPlain := by
    rw [String.toList_ofList, List.all_map, List.all_eq_true]
    intro c hc
    rw [Function.comp_apply, hf.apply_eq fun _ => isPlain_of_isAlpha]
    exact hs.plain hc

/-- A subtag names a region whatever the case of its letters. -/
theorem isRegion_map (hf : IsRecasing f) (cs : List Char) : isRegion (cs.map f) = isRegion cs := by
  have halpha : ∀ c, (f c).isAlpha = c.isAlpha := fun c => hf.apply_eq (fun _ h => h) c
  have hdigit : ∀ c, (f c).isDigit = c.isDigit := fun c =>
    hf.apply_eq (b := false) (fun c h => by
      rw [isAlpha_iff] at h
      rw [Bool.eq_false_iff, Ne, isDigit_iff]
      omega) c
  simp [isRegion, Function.comp_def, halpha, hdigit]

theorem isAlpha_or_isDigit_of_isRegion (h : isRegion s.toList = true) {c : Char}
    (hc : c ∈ s.toList) : c.isAlpha = true ∨ c.isDigit = true := by
  simp only [isRegion, Bool.or_eq_true, Bool.and_eq_true, List.all_eq_true] at h
  exact h.imp (fun h => h.2 c hc) fun h => h.2 c hc

/-- The name of a region can stand between separators. -/
theorem isSubtag_of_isRegion (h : isRegion s.toList = true) : IsSubtag s where
  ne_empty := by rintro rfl; simp [isRegion] at h
  all_isPlain := List.all_eq_true.2 fun _ hc =>
    (isAlpha_or_isDigit_of_isRegion h hc).elim isPlain_of_isAlpha isPlain_of_isDigit

/-- There is no blank character in the name of a region. -/
theorem trimEnd_of_isRegion (h : isRegion s.toList = true) : trimEnd s = s :=
  trimEnd_of_forall fun _ hc =>
    (isAlpha_or_isDigit_of_isRegion h hc).elim isBlank_of_isAlpha isBlank_of_isDigit

/-! ## Reading subtags -/

/-- The parts of a text are free of separators. -/
theorem of_mem_splitOnP {p : Char → Bool} {part : List Char} (hpart : part ∈ cs.splitOnP p)
    {c : Char} (hc : c ∈ part) : p c = false ∧ c ∈ cs := by
  induction cs generalizing part with
  | nil => simp_all
  | cons d cs ih =>
    rw [List.splitOnP_cons_eq_if_modifyHead] at hpart
    split at hpart
    · rcases List.mem_cons.1 hpart with rfl | hpart
      · cases hc
      · exact (ih hpart hc).imp_right (List.mem_cons_of_mem d)
    · rename_i hd
      obtain ⟨first, rest, hsplit⟩ := List.exists_cons_of_ne_nil (List.splitOnP_ne_nil p cs)
      rw [hsplit, List.modifyHead_cons] at hpart
      rcases List.mem_cons.1 hpart with rfl | hpart
      · rcases List.mem_cons.1 hc with rfl | hc
        · simpa using hd
        · exact (ih (hsplit ▸ List.mem_cons_self) hc).imp_right (List.mem_cons_of_mem d)
      · exact (ih (hsplit ▸ List.mem_cons_of_mem _ hpart) hc).imp_right (List.mem_cons_of_mem d)

/-- A text that is not cut is its own part. -/
theorem eq_of_splitOnP_singleton {p : Char → Bool} {part : List Char}
    (h : cs.splitOnP p = [part]) : part = cs := by
  by_cases hcs : ∀ c ∈ cs, p c = false
  · rw [List.splitOnP_eq_singleton hcs] at h
    exact (List.cons.inj h).1.symm
  · obtain ⟨c, hc, hp⟩ : ∃ c ∈ cs, p c = true := by simpa using hcs
    obtain ⟨before, behind, rfl⟩ := List.append_of_mem hc
    have hlength := congrArg List.length h
    rw [List.splitOnP_append_cons before behind hp, List.length_append] at hlength
    have hbefore := List.length_pos_iff.2 (List.splitOnP_ne_nil p before)
    have hbehind := List.length_pos_iff.2 (List.splitOnP_ne_nil p behind)
    rw [List.length_singleton] at hlength
    omega

/-- A text starts as the first of its parts does, if that is not empty. -/
theorem head?_of_splitOnP {p : Char → Bool} {first : List Char} {rest : List (List Char)}
    (hsplit : cs.splitOnP p = first :: rest) (hne : first ≠ []) : cs.head? = first.head? := by
  cases cs with
  | nil => simp_all
  | cons c cs =>
    rw [List.splitOnP_cons_eq_if_modifyHead] at hsplit
    split at hsplit
    · exact absurd (List.cons.inj hsplit).1.symm hne
    · obtain ⟨part, parts, hparts⟩ := List.exists_cons_of_ne_nil (List.splitOnP_ne_nil p cs)
      rw [hparts, List.modifyHead_cons] at hsplit
      rw [← (List.cons.inj hsplit).1, List.head?_cons, List.head?_cons]

/-- What is read of a text that is cut into a language and subtags. -/
theorem read?_eq {tag language : List Char} {subtags : List (List Char)}
    (hsplit : tag.splitOnP isSeparator = language :: subtags) (hne : language ≠ []) :
    read? tag = subtags.foldlM addSubtag? (ofSubtag (String.ofList language)) := by
  rw [read?, hsplit]
  cases language with
  | nil => exact absurd rfl hne
  | cons c cs => rfl

theorem exists_of_read? {tag : List Char} {l : Lect} (h : read? tag = some l) :
    ∃ language subtags, tag.splitOnP isSeparator = language :: subtags ∧ language ≠ [] ∧
      subtags.foldlM addSubtag? (ofSubtag (String.ofList language)) = some l := by
  unfold read? at h
  split at h
  · cases h
  · cases h
  · rename_i language subtags hne hsplit
    exact ⟨language, subtags, hsplit, hne, h⟩

/-- Subtags with hyphens between them are cut where they were joined. -/
theorem splitOnP_hyphens {first : String} (hfirst : first.toList.all isPlain = true)
    {rest : List String} (hrest : ∀ s ∈ rest, s.toList.all isPlain = true) :
    (first.toList ++ rest.flatMap fun s => '-' :: s.toList).splitOnP isSeparator =
      first.toList :: rest.map String.toList := by
  induction rest generalizing first with
  | nil => simpa using List.splitOnP_eq_singleton (not_isSeparator_of_all hfirst)
  | cons next rest ih =>
    rw [List.flatMap_cons, List.cons_append,
      List.splitOnP_append_cons_of_forall_mem (not_isSeparator_of_all hfirst) '-' rfl,
      ih (hrest next (by simp)) fun s hs => hrest s (by simp [hs]), List.map_cons]

/-- Reading a language and the subtags behind it: the language as it is known, and then one
    subtag after the other. -/
theorem read?_append {language : String} (hlanguage : IsSubtag language) {subtags : List String}
    (hsubtags : ∀ s ∈ subtags, s.toList.all isPlain = true) :
    read? (language.toList ++ subtags.flatMap fun s => '-' :: s.toList) =
      (subtags.map String.toList).foldlM addSubtag? (ofSubtag language) := by
  have hne : language.toList ≠ [] := fun h => hlanguage.ne_empty (by simpa using h)
  rw [read?_eq (splitOnP_hyphens hlanguage.all_isPlain hsubtags) hne, String.ofList_toList]

@[simp]
theorem region_ofSubtag (s : String) : (ofSubtag s).region = none := by
  unfold ofSubtag
  split
  · rfl
  · split <;> rfl

@[simp]
theorem variant_ofSubtag (s : String) : (ofSubtag s).variant = none := by
  unfold ofSubtag
  split
  · rfl
  · split <;> rfl

/-- A lect whose text can be cut into what it was put together from: no subtag contains a
    separator, the text starts with no blank character, the region looks like one, and a variant
    that looks like a region stands behind one. -/
structure IsLegible (l : Lect) : Prop where
  isSubtag : IsSubtag l.tag
  not_isBlank : ∀ c ∈ l.tag.toList.head?, isBlank c = false
  isRegion : ∀ r ∈ l.region, Lect.isRegion r.toList = true
  isSubtag_variant : ∀ v ∈ l.variant, IsSubtag v
  isSome_region : ∀ v ∈ l.variant, Lect.isRegion v.toList = true → l.region.isSome = true

theorem IsLegible.subtags {l : Lect} (h : IsLegible l) :
    ∀ s ∈ l.region.toList ++ l.variant.toList, IsSubtag s := by
  simp only [List.mem_append, Option.mem_toList]
  rintro s (hs | hs)
  · exact isSubtag_of_isRegion (h.isRegion s hs)
  · exact h.isSubtag_variant s hs

theorem addSubtag?_region {l : Lect} {r : String} (hr : isRegion r.toList = true)
    (hl : l.region = none) :
    addSubtag? l r.toList = some { l with region := some (raiseAscii r) } := by
  have hne : r.toList ≠ [] := fun h => by simp [isRegion, h] at hr
  simp [addSubtag?, hne, hr, hl]

theorem addSubtag?_variant {l : Lect} {v : String} (hv : v ≠ "")
    (hregion : isRegion v.toList = true → l.region.isSome = true) (hl : l.variant = none) :
    addSubtag? l v.toList = some { l with variant := some (foldAscii v) } := by
  have hne : v.toList ≠ [] := fun h => hv (by simpa using h)
  have hnot : (isRegion v.toList && l.region.isNone) = false := by
    cases hr : isRegion v.toList
    · rfl
    · simpa using hregion hr
  simp [addSubtag?, hne, hnot, hl]

/-- A lect without region and variant takes up those of a legible one. -/
theorem foldlM_addSubtag? {first l : Lect} (hregion : first.region = none)
    (hvariant : first.variant = none) (h : IsLegible l) :
    ((l.region.toList ++ l.variant.toList).map String.toList).foldlM addSubtag? first =
      some { first with
        region := l.region.map raiseAscii, variant := l.variant.map foldAscii } := by
  obtain ⟨known, tag, _, _⟩ := first
  obtain ⟨_, _, region, variant⟩ := l
  subst hregion hvariant
  have hfirst : (region.toList.map String.toList).foldlM addSubtag? ⟨known, tag, none, none⟩ =
      some ⟨known, tag, region.map raiseAscii, none⟩ := by
    cases region with
    | none => rfl
    | some r => simp [addSubtag?_region (h.isRegion r rfl)]
  rw [List.map_append, List.foldlM_append, hfirst, Option.bind_eq_bind, Option.bind_some]
  cases variant with
  | none => rfl
  | some v =>
    have hplace : isRegion v.toList = true → (region.map raiseAscii).isSome = true := fun hr => by
      simpa using h.isSome_region v rfl hr
    simp [addSubtag?_variant (l := ⟨known, tag, region.map raiseAscii, none⟩)
      (h.isSubtag_variant v rfl).ne_empty hplace]

/-! ## Text of lects -/

theorem toList_hyphenated (subtag : Option String) :
    (hyphenated subtag).toList = subtag.toList.flatMap fun s => '-' :: s.toList := by
  cases subtag <;> simp [hyphenated]

theorem toList_toString (l : Lect) :
    l.toString.toList =
      l.tag.toList ++ (l.region.toList ++ l.variant.toList).flatMap fun s => '-' :: s.toList := by
  rw [toString, String.toList_append, String.toList_append, toList_hyphenated, toList_hyphenated,
    List.append_assoc, ← List.flatMap_append]

/-- A legible text is read as the language with its region and its variant, in the letter case
    of each. -/
theorem read?_of_isLegible {l : Lect} (h : IsLegible l) :
    read? l.toString.toList =
      some { ofSubtag l.tag with
        region := l.region.map raiseAscii, variant := l.variant.map foldAscii } := by
  rw [toList_toString, read?_append h.isSubtag fun s hs => (h.subtags s hs).all_isPlain]
  exact foldlM_addSubtag? (region_ofSubtag l.tag) (variant_ofSubtag l.tag) h

/-- There is no slash in a legible text. -/
theorem not_slash_of_isLegible {l : Lect} (h : IsLegible l) : '/' ∉ l.toString.toList := by
  have hsubtag : ∀ s, IsSubtag s → '/' ∉ s.toList := fun s hs hc => by
    simpa [isPlain] using hs.plain hc
  rw [toList_toString, List.mem_append, List.mem_flatMap]
  rintro (hc | ⟨s, hs, hc⟩)
  · exact hsubtag _ h.isSubtag hc
  · exact hsubtag s (h.subtags s hs) (by simpa using hc)

/-- A legible text starts as its language does. -/
theorem dropWhile_of_isLegible {l : Lect} (h : IsLegible l) :
    l.toString.toList.dropWhile isBlank = l.toString.toList := by
  obtain ⟨c, cs, hcs⟩ := List.exists_cons_of_ne_nil fun hnil =>
    h.isSubtag.ne_empty (String.toList_eq_nil_iff.1 hnil)
  rw [toList_toString, hcs, List.cons_append]
  exact List.dropWhile_cons_of_neg (by simp [h.not_isBlank c (by simp [hcs])])

/-! ## Normal lects -/

/-- A lect as reading leaves it: legible, and each subtag spelled in the one way in which it is
    written. -/
structure IsNormal (l : Lect) : Prop extends IsLegible l where
  ofSubtag : Lect.ofSubtag l.tag = { l with region := none, variant := none }
  raised : l.region.map raiseAscii = l.region
  folded : l.variant.map foldAscii = l.variant

/-- **The text of a normal lect is read as the lect.** -/
theorem read?_toString {l : Lect} (h : IsNormal l) : read? l.toString.toList = some l := by
  rw [read?_of_isLegible h.toIsLegible, h.ofSubtag, h.raised, h.folded]

theorem isAlpha_tag (known : KnownLanguage) : known.tag.toList.all Char.isAlpha = true := by
  cases known <;> rfl

theorem isSubtag_tag (known : KnownLanguage) : IsSubtag known.tag where
  ne_empty := by cases known <;> nofun
  all_isPlain := List.all_eq_true.2 fun c hc =>
    isPlain_of_isAlpha (List.all_eq_true.1 (isAlpha_tag known) c hc)

/-- The tag of a known language stands for it. -/
theorem ofSubtag_tag (known : KnownLanguage) : ofSubtag known.tag = ofKnown known := by
  cases known <;> rfl

/-- A subtag stands for the same lect in lowercase, where it is of an unknown language. -/
theorem ofSubtag_foldAscii (hs : s ≠ "*") (hunknown : KnownLanguage.ofTag? s = none) :
    ofSubtag (foldAscii s) = ofUnknown (foldAscii s) := by
  have hne : foldAscii s ≠ "*" := fun h => by
    rw [foldAscii, String.ofList_eq] at h
    obtain ⟨c, hc, hstar⟩ := List.map_eq_singleton_iff.1 h
    exact hs (String.ext (hc.trans (by rw [isRecasing_toLower.eq_of_apply hstar rfl]; rfl)))
  have hof : KnownLanguage.ofTag? (foldAscii s) = KnownLanguage.ofTag? s := by
    simp only [KnownLanguage.ofTag?, eqIgnoringAsciiCase, foldAscii_foldAscii]
  rw [ofSubtag, if_neg hne, hof, hunknown, foldAscii_foldAscii]

/-- The lect of a language subtag is normal. -/
theorem isNormal_ofSubtag (hs : IsSubtag s) (hblank : ∀ c ∈ s.toList.head?, isBlank c = false) :
    IsNormal (ofSubtag s) := by
  have of : ∀ l : Lect, l.region = none → l.variant = none → IsSubtag l.tag →
      (∀ c ∈ l.tag.toList.head?, isBlank c = false) → Lect.ofSubtag l.tag = l → IsNormal l := by
    rintro ⟨known, tag, region, variant⟩ rfl rfl hs hblank h
    exact ⟨⟨hs, hblank, by simp, by simp, by simp⟩, h, rfl, rfl⟩
  have hlect : IsSubtag (Lect.ofSubtag s).tag ∧
      (∀ c ∈ (Lect.ofSubtag s).tag.toList.head?, isBlank c = false) ∧
      Lect.ofSubtag (Lect.ofSubtag s).tag = Lect.ofSubtag s := by
    by_cases hstar : s = "*"
    · rw [hstar]
      refine ⟨⟨nofun, rfl⟩, fun c hc => ?_, rfl⟩
      obtain rfl : '*' = c := by simpa [Lect.ofSubtag, wildcard, ofUnknown] using hc
      decide
    rcases hknown : KnownLanguage.ofTag? s with _ | known
    · have hof : Lect.ofSubtag s = ofUnknown (foldAscii s) := by
        rw [Lect.ofSubtag, if_neg hstar, hknown]
      rw [hof]
      refine ⟨hs.recase isRecasing_toLower, ?_, ofSubtag_foldAscii hstar hknown⟩
      simp only [ofUnknown, foldAscii, String.toList_ofList, List.head?_map, Option.mem_map]
      rintro _ ⟨c, hc, rfl⟩
      rw [isRecasing_toLower.apply_eq fun _ => isBlank_of_isAlpha]
      exact hblank c hc
    · have hof : Lect.ofSubtag s = ofKnown known := by
        rw [Lect.ofSubtag, if_neg hstar, hknown]
      rw [hof]
      refine ⟨isSubtag_tag known, fun c hc => isBlank_of_isAlpha ?_, ofSubtag_tag known⟩
      exact List.all_eq_true.1 (isAlpha_tag known) c (List.mem_of_mem_head? hc)
  exact of _ (region_ofSubtag s) (variant_ofSubtag s) hlect.1 hlect.2.1 hlect.2.2

/-- One more subtag leaves a lect normal. -/
theorem IsNormal.addSubtag? {l l' : Lect} (hl : IsNormal l) (hs : IsSubtag s)
    (h : l.addSubtag? s.toList = some l') : IsNormal l' := by
  have hne : s.toList ≠ [] := fun h => hs.ne_empty (by simpa using h)
  rw [Lect.addSubtag?, String.ofList_toList, if_neg (by simpa using hne)] at h
  split at h
  · rename_i hregion
    cases h
    rw [Bool.and_eq_true, Option.isNone_iff_eq_none] at hregion
    refine { hl with isRegion := ?_, isSome_region := fun _ _ _ => rfl, raised := ?_ }
    · rintro _ ⟨⟩
      rw [raiseAscii, String.toList_ofList, isRegion_map isRecasing_toUpper]
      exact hregion.1
    · rw [Option.map_some, raiseAscii_raiseAscii]
  · rename_i hregion
    split at h
    · cases h
      refine { hl with isSubtag_variant := ?_, isSome_region := ?_, folded := ?_ }
      · rintro _ ⟨⟩
        exact hs.recase isRecasing_toLower
      · rintro _ ⟨⟩ hr
        rw [foldAscii, String.toList_ofList, isRegion_map isRecasing_toLower] at hr
        simpa [hr, ← Option.ne_none_iff_isSome] using hregion
      · rw [Option.map_some, foldAscii_foldAscii]
    · cases h

/-- What is read is normal. -/
theorem isNormal_of_read? {tag : List Char} {l : Lect} (hslash : '/' ∉ tag)
    (hblank : ∀ c ∈ tag.head?, isBlank c = false) (h : read? tag = some l) : IsNormal l := by
  obtain ⟨language, subtags, hsplit, hne, hfold⟩ := exists_of_read? h
  have hparts : ∀ part ∈ language :: subtags, part ≠ [] → IsSubtag (String.ofList part) :=
    fun part hpart hne => by
      refine ⟨by simpa using hne, List.all_eq_true.2 fun c hc => ?_⟩
      rw [String.toList_ofList] at hc
      obtain ⟨hc, hmem⟩ := of_mem_splitOnP (hsplit ▸ hpart) hc
      have hslash : c ≠ '/' := fun he => hslash (he ▸ hmem)
      simp [isPlain, hc, hslash]
  have hlanguage : IsNormal (ofSubtag (String.ofList language)) := by
    refine isNormal_ofSubtag (hparts language (by simp) hne) fun c hc => hblank c ?_
    rw [head?_of_splitOnP hsplit hne]
    simpa using hc
  -- one subtag after the other leaves the lect normal
  replace hparts : ∀ part ∈ subtags, part ≠ [] → IsSubtag (String.ofList part) :=
    fun part hpart => hparts part (by simp [hpart])
  clear hsplit
  generalize ofSubtag (String.ofList language) = first at hlanguage hfold
  induction subtags generalizing first with
  | nil => simpa using Option.some.inj hfold ▸ hlanguage
  | cons part rest ih =>
    obtain ⟨next, hnext, hrest⟩ := Option.bind_eq_some_iff.1 hfold
    have hpart : part ≠ [] := by
      rintro rfl
      cases hnext
    refine ih (fun part hpart => hparts part (by simp [hpart])) next ?_ hrest
    exact hlanguage.addSubtag? (hparts part (by simp) hpart) (by simpa using hnext)

/-! ## The end of a text -/

/-- The subtags behind the language leave a trace. -/
theorem not_bare_of_addSubtag? {l l' : Lect} (h : l.addSubtag? cs = some l') :
    ¬ (l'.region = none ∧ l'.variant = none) := by
  unfold Lect.addSubtag? at h
  split at h
  · cases h
  · split at h
    · cases h
      simp
    · split at h
      · cases h
        simp
      · cases h

/-- The variant that a subtag leaves behind is the subtag, if there was none before. -/
theorem variant_of_addSubtag? {l l' : Lect} (hl : l.variant = none)
    (h : l.addSubtag? cs = some l') : ∀ v ∈ l'.variant, v = foldAscii (String.ofList cs) := by
  unfold Lect.addSubtag? at h
  split at h
  · cases h
  · split at h
    · cases h
      simp [hl]
    · split at h
      · cases h
        simp
      · cases h

/-- The tag of a language subtag ends in a blank character only where the subtag does. -/
theorem trimEnd_tag_ofSubtag (hs : trimEnd s = s) :
    trimEnd (ofSubtag s).tag = (ofSubtag s).tag := by
  by_cases hstar : s = "*"
  · rw [hstar]
    rfl
  rcases hknown : KnownLanguage.ofTag? s with _ | known
  · have hof : ofSubtag s = ofUnknown (foldAscii s) := by
      rw [ofSubtag, if_neg hstar, hknown]
    have hblank : isBlank ∘ Char.toLower = isBlank :=
      funext (isRecasing_toLower.apply_eq fun _ => isBlank_of_isAlpha)
    rw [trimEnd_eq_self_iff, dropEndWhile] at hs
    rw [hof, ofUnknown, trimEnd_eq_self_iff, foldAscii, String.toList_ofList, dropEndWhile,
      ← List.map_reverse, List.dropWhile_map, hblank, ← List.map_reverse, hs]
  · have hof : ofSubtag s = ofKnown known := by
      rw [ofSubtag, if_neg hstar, hknown]
    rw [hof]
    exact trimEnd_of_forall fun c hc =>
      isBlank_of_isAlpha (List.all_eq_true.1 (isAlpha_tag known) c hc)

/-- A lect that has neither region nor variant is read of a single subtag, so its tag ends in a
    blank character only where the text does. -/
theorem trimEnd_tag_of_read? {tag : List Char} {l : Lect} (hend : dropEndWhile isBlank tag = tag)
    (h : read? tag = some l) (hregion : l.region = none) (hvariant : l.variant = none) :
    trimEnd l.tag = l.tag := by
  obtain ⟨language, subtags, hsplit, hne, hfold⟩ := exists_of_read? h
  rcases List.eq_nil_or_concat subtags with rfl | ⟨before, last, rfl⟩
  · obtain rfl : language = tag := eq_of_splitOnP_singleton hsplit
    cases Option.some.inj hfold
    exact trimEnd_tag_ofSubtag (by rw [trimEnd_eq_self_iff, String.toList_ofList, hend])
  · rw [List.concat_eq_append, List.foldlM_append] at hfold
    obtain ⟨l₁, -, hlast⟩ := Option.bind_eq_some_iff.1 hfold
    rw [List.foldlM_cons] at hlast
    exact absurd ⟨hregion, hvariant⟩ (not_bare_of_addSubtag? (by simpa using hlast))

/-- Blank characters at the end of a text with a variant are those of the variant. -/
theorem dropEndWhile_of_variant {l : Lect} {v : String} (hv : l.variant = some v) :
    dropEndWhile isBlank l.toString.toList =
      l.tag.toList ++ (l.region.toList ++ [trimEnd v]).flatMap fun s => '-' :: s.toList := by
  rw [toList_toString, hv, List.flatMap_append, ← List.append_assoc, Option.toList_some,
    List.flatMap_singleton, dropEndWhile_append_cons (by decide), List.flatMap_append,
    List.flatMap_singleton, trimEnd, String.toList_ofList, List.append_assoc]

/-- A legible text ends in a blank character only where its last subtag does. -/
theorem dropEndWhile_of_isLegible {l : Lect} (h : IsLegible l)
    (hbare : l.region = none → l.variant = none → trimEnd l.tag = l.tag)
    (hvariant : ∀ v ∈ l.variant, trimEnd v = v) :
    dropEndWhile isBlank l.toString.toList = l.toString.toList := by
  rcases hv : l.variant with _ | v
  · rcases hr : l.region with _ | r
    · simpa [toList_toString, hv, hr] using trimEnd_eq_self_iff.1 (hbare hr hv)
    · have hend := trimEnd_eq_self_iff.1 (trimEnd_of_isRegion (h.isRegion r hr))
      simp [toList_toString, hv, hr, dropEndWhile_append_cons (p := isBlank) (c := '-') (by decide),
        hend]
  · rw [dropEndWhile_of_variant hv, hvariant v hv, toList_toString, hv, Option.toList_some]

/-- A variant that ends in a blank character is not read back from a text that has lost it. -/
theorem read?_dropEndWhile_ne {l : Lect} (h : IsNormal l) {v : String} (hv : l.variant = some v)
    (hblank : trimEnd v ≠ v) : read? (dropEndWhile isBlank l.toString.toList) ≠ some l := by
  have hbegins : (trimEnd v).toList <+: v.toList := by
    rw [trimEnd, String.toList_ofList]
    exact List.rdropWhile_prefix _ _
  have hsubtags : ∀ s ∈ l.region.toList ++ [trimEnd v], s.toList.all isPlain = true := by
    simp only [List.mem_append, Option.mem_toList, List.mem_singleton]
    rintro s (hs | rfl)
    · exact (isSubtag_of_isRegion (h.isRegion s hs)).all_isPlain
    · exact List.all_eq_true.2 fun c hc => (h.isSubtag_variant v hv).plain (hbegins.mem hc)
  have hfirst : (l.region.toList.map String.toList).foldlM Lect.addSubtag? (Lect.ofSubtag l.tag) =
      some { l with variant := none } := by
    have hlegible : IsLegible { l with variant := none } :=
      ⟨h.isSubtag, h.not_isBlank, h.isRegion, by simp, by simp⟩
    have hfold := foldlM_addSubtag? (region_ofSubtag l.tag) (variant_ofSubtag l.tag) hlegible
    simpa [h.ofSubtag, h.raised] using hfold
  rw [dropEndWhile_of_variant hv, read?_append h.isSubtag hsubtags, List.map_append,
    List.foldlM_append, hfirst]
  intro hread
  have hlast : Lect.addSubtag? { l with variant := none } (trimEnd v).toList = some l := by
    simpa using hread
  have hsame : v = foldAscii (trimEnd v) := by
    simpa only [String.ofList_toList] using variant_of_addSubtag? rfl hlast v hv
  -- lowercase is as long, and nothing shorter than the variant is as long as it
  have hlength : (trimEnd v).toList.length = v.toList.length := by
    conv_rhs => rw [hsame, foldAscii, String.toList_ofList, List.length_map]
  exact hblank (String.ext (hbegins.eq_of_length hlength))

end Lect

end Rubric
