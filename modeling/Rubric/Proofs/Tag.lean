/-
  Rubric — language tags to and from text.

  A tag is cut into lects at its slashes.  Blank characters at its ends and behind a slash do
  not count; those before a slash or a hyphen do.

  * `cut_induction`: induction over the parts of a text; `readLects?`: what is read of them;
  * `Language.read?_eq_some_iff`: what is read of a tag is what is read of its parts, without
    the blank characters at its end;
  * `Language.isNormal_of_read?`: all lects of a language that is read are normal;
  * **`Language.read?_toString_iff`**: its text reads back as the language, unless the variant
    of the last lect ends in a blank character;
  * **`Language.read?_composed`**: tags are put together from the tag of a known language, a
    region, a variant and the tag of a script.
-/
import Rubric.Proofs.Subtags

namespace Rubric

open Text

/-! ## Parts -/

/-- Induction over the parts of a text between slashes. -/
theorem cut_induction {motive : List Char → Prop} (single : ∀ part, '/' ∉ part → motive part)
    (cons : ∀ part rest, '/' ∉ part → motive rest → motive (part ++ '/' :: rest))
    (cs : List Char) : motive cs := by
  have hparts : ∀ parts : List (List Char), parts ≠ [] → (∀ part ∈ parts, '/' ∉ part) →
      motive (['/'].intercalate parts) := by
    intro parts hne hslash
    induction parts with
    | nil => exact absurd rfl hne
    | cons part parts ih =>
      have hpart := hslash part (by simp)
      cases parts with
      | nil => simpa using single part hpart
      | cons next parts =>
        rw [List.intercalate_cons_cons, List.append_assoc]
        exact cons part _ hpart (ih (by simp) fun part h => hslash part (by simp [h]))
  have hslash : ∀ part ∈ cs.splitOn '/', '/' ∉ part := fun part hpart hc => by
    rw [List.splitOn_eq_splitOnP] at hpart
    simpa using (Lect.of_mem_splitOnP hpart hc).1
  have hjoined : ['/'].intercalate (cs.splitOn '/') = cs := List.intercalate_splitOn '/'
  rw [← hjoined]
  exact hparts _ (List.splitOn_ne_nil '/' cs) hslash

namespace Language

/-- What is read of the parts of a text. -/
def readLects? (cs : List Char) : Option (List Lect) :=
  (cs.splitOn '/').mapM fun part => Lect.read? (part.dropWhile isBlank)

variable {s : String} {l : Language} {lects : List Lect} {part cs rest : List Char}

theorem readLects?_single (h : '/' ∉ part) :
    readLects? part = (Lect.read? (part.dropWhile isBlank)).map fun lect => [lect] := by
  rw [readLects?, List.splitOn_eq_singleton h]
  cases h : Lect.read? (part.dropWhile isBlank) <;> simp [h]

theorem readLects?_append_cons (h : '/' ∉ part) :
    readLects? (part ++ '/' :: rest) =
      (Lect.read? (part.dropWhile isBlank)).bind fun lect =>
        (readLects? rest).map fun lects => lect :: lects := by
  rw [readLects?, List.splitOn_append_cons_self_of_not_mem h, List.mapM_cons, ← readLects?]
  cases Lect.read? (part.dropWhile isBlank) <;> cases readLects? rest <;> rfl

/-- Blank characters at the start do not count. -/
theorem readLects?_dropWhile (cs : List Char) :
    readLects? (cs.dropWhile isBlank) = readLects? cs := by
  have hmem : ∀ part : List Char, '/' ∉ part → '/' ∉ part.dropWhile isBlank := fun part h hc =>
    h ((List.dropWhile_sublist _).mem hc)
  induction cs using cut_induction with
  | single part hpart =>
    rw [readLects?_single (hmem part hpart), readLects?_single hpart, List.dropWhile_idempotent]
  | cons part rest hpart ih =>
    rw [dropWhile_append_cons (by decide), readLects?_append_cons (hmem part hpart),
      readLects?_append_cons hpart, List.dropWhile_idempotent]

/-- What is read of a tag is what is read of its parts, up to the blank characters at its end. -/
theorem read?_eq_some_iff :
    read? s = some l ↔ readLects? (dropEndWhile isBlank s.toList) = some l.lects := by
  have htrim : (trim s).toList = dropEndWhile isBlank (s.toList.dropWhile isBlank) :=
    String.toList_ofList
  have hparts :
      ((trim s).toList.splitOn '/').mapM (fun part => Lect.read? (part.dropWhile isBlank)) =
        readLects? (dropEndWhile isBlank s.toList) := by
    rw [← readLects?_dropWhile, dropWhile_dropEndWhile, ← htrim, readLects?]
  obtain ⟨lect, scripts⟩ := l
  rw [read?, hparts]
  split
  · rename_i h
    simp [h, lects]
  · rename_i h
    simp only [reduceCtorEq, lects, false_iff]
    exact fun h' => h _ _ h'

theorem ne_nil_of_readLects? (h : readLects? cs = some lects) : lects ≠ [] := by
  rintro rfl
  induction cs using cut_induction with
  | single part hslash => simp [readLects?_single hslash] at h
  | cons part rest hslash _ =>
    rw [readLects?_append_cons hslash, Option.bind_eq_some_iff] at h
    obtain ⟨lect, -, h⟩ := h
    simp at h

/-- Whatever is read of the parts of a text is normal. -/
theorem isNormal_of_readLects? (h : readLects? cs = some lects) :
    ∀ lect ∈ lects, lect.IsNormal := by
  have hpart : ∀ (part : List Char) (lect : Lect), '/' ∉ part →
      Lect.read? (part.dropWhile isBlank) = some lect → lect.IsNormal := by
    intro part lect hslash hlect
    refine Lect.isNormal_of_read? (fun hc => hslash ((List.dropWhile_sublist _).mem hc)) ?_ hlect
    intro c hc
    have hnot := List.head?_dropWhile_not isBlank part
    rwa [Option.mem_def.1 hc] at hnot
  induction cs using cut_induction generalizing lects with
  | single part hslash =>
    rw [readLects?_single hslash, Option.map_eq_some_iff] at h
    obtain ⟨lect, hlect, rfl⟩ := h
    simpa using hpart part lect hslash hlect
  | cons part rest hslash ih =>
    rw [readLects?_append_cons hslash, Option.bind_eq_some_iff] at h
    obtain ⟨lect, hlect, h⟩ := h
    obtain ⟨others, hothers, rfl⟩ := Option.map_eq_some_iff.1 h
    intro other hother
    rcases List.mem_cons.1 hother with rfl | hother
    · exact hpart part other hslash hlect
    · exact ih hothers other hother

/-- All lects of a language that is read are normal. -/
theorem isNormal_of_read? (h : read? s = some l) : ∀ lect ∈ l.lects, lect.IsNormal :=
  isNormal_of_readLects? (read?_eq_some_iff.1 h)

/-! ## Text -/

/-- The text of lects: that of each, with slashes between them. -/
def spell (lects : List Lect) : List Char :=
  ['/'].intercalate (lects.map fun lect => lect.toString.toList)

theorem spell_cons_cons (lect next : Lect) (lects : List Lect) :
    spell (lect :: next :: lects) = lect.toString.toList ++ '/' :: spell (next :: lects) := by
  simp [spell, List.intercalate_cons_cons]

theorem toList_toString (l : Language) : l.toString.toList = spell l.lects := by
  rw [toString, String.toList_intercalate, List.map_map]
  rfl

/-- Behind a slash after a normal lect, the others are read as they are. -/
theorem readLects?_normal_cons {lect : Lect} (h : lect.IsNormal) :
    readLects? (lect.toString.toList ++ '/' :: rest) =
      (readLects? rest).map fun lects => lect :: lects := by
  rw [readLects?_append_cons (Lect.not_slash_of_isLegible h.toIsLegible),
    Lect.dropWhile_of_isLegible h.toIsLegible, Lect.read?_toString h, Option.bind_some]

/-- The text of a normal lect, without the blank characters at its end, is read as the lect
    unless they belong to the variant. -/
theorem readLects?_dropEndWhile_single {lect : Lect} (h : lect.IsNormal)
    (hbare : lect.region = none → lect.variant = none → trimEnd lect.tag = lect.tag) :
    readLects? (dropEndWhile isBlank lect.toString.toList) = some [lect] ↔
      ∀ v ∈ lect.variant, trimEnd v = v := by
  have hslash : '/' ∉ dropEndWhile isBlank lect.toString.toList := fun hc =>
    Lect.not_slash_of_isLegible h.toIsLegible ((List.rdropWhile_prefix _ _).mem hc)
  rw [readLects?_single hslash, dropWhile_dropEndWhile, Lect.dropWhile_of_isLegible h.toIsLegible]
  constructor
  · intro hread v hv
    by_contra hblank
    obtain ⟨other, hother, he⟩ := Option.map_eq_some_iff.1 hread
    obtain rfl : other = lect := (List.cons.inj he).1
    exact Lect.read?_dropEndWhile_ne h hv hblank hother
  · intro hvariant
    rw [Lect.dropEndWhile_of_isLegible h.toIsLegible hbare hvariant, Lect.read?_toString h,
      Option.map_some]

/-- The text of normal lects, without the blank characters at its end, is read as the lects
    unless they belong to the variant of the last one. -/
theorem readLects?_dropEndWhile_iff (hne : lects ≠ []) (h : ∀ lect ∈ lects, lect.IsNormal)
    (hbare : ∀ last ∈ lects.getLast?, last.region = none → last.variant = none →
      trimEnd last.tag = last.tag) :
    readLects? (dropEndWhile isBlank (spell lects)) = some lects ↔
      ∀ last ∈ lects.getLast?, ∀ v ∈ last.variant, trimEnd v = v := by
  induction lects with
  | nil => exact absurd rfl hne
  | cons lect lects ih =>
    cases lects with
    | nil =>
      simpa [spell] using
        readLects?_dropEndWhile_single (h lect (by simp)) (hbare lect List.getLast?_singleton)
    | cons next lects =>
      rw [List.getLast?_cons_cons] at hbare ⊢
      rw [← ih (by simp) (fun l hl => h l (by simp [hl])) hbare, spell_cons_cons,
        dropEndWhile_append_cons (by decide), readLects?_normal_cons (h lect (by simp))]
      simp

/-- The last lect of a text that does not end in a blank character. -/
theorem trimEnd_tag_of_readLects? (hend : dropEndWhile isBlank cs = cs)
    (h : readLects? cs = some lects) : ∀ last ∈ lects.getLast?, last.region = none →
      last.variant = none → trimEnd last.tag = last.tag := by
  induction cs using cut_induction generalizing lects with
  | single part hslash =>
    rw [readLects?_single hslash, Option.map_eq_some_iff] at h
    obtain ⟨lect, hlect, rfl⟩ := h
    have hpart : dropEndWhile isBlank (part.dropWhile isBlank) = part.dropWhile isBlank := by
      rw [← dropWhile_dropEndWhile, hend]
    rintro _ ⟨⟩
    exact Lect.trimEnd_tag_of_read? hpart hlect
  | cons part rest hslash ih =>
    rw [readLects?_append_cons hslash, Option.bind_eq_some_iff] at h
    obtain ⟨lect, -, h⟩ := h
    obtain ⟨others, hothers, rfl⟩ := Option.map_eq_some_iff.1 h
    rw [dropEndWhile_append_cons (by decide), List.append_cancel_left_eq] at hend
    obtain ⟨other, others, rfl⟩ := List.exists_cons_of_ne_nil (ne_nil_of_readLects? hothers)
    rw [List.getLast?_cons_cons]
    exact ih (List.cons.inj hend).2 hothers

/-- The lect in whose script the language is written in the end. -/
def innermost (l : Language) : Lect :=
  l.scripts.getLastD l.lect

theorem getLast?_lects (l : Language) : l.lects.getLast? = some l.innermost := by
  simp [lects, innermost, List.getLast?_cons]

/-- **The text of a language reads back as the language, but for blank characters at its end.**
    For every text that is read as a language, at whatever depth of scripts: the text that the
    language is written with is read again, and gives the language with all its subtags, exactly
    when the variant of the innermost lect, if there is one, does not end in a blank character. -/
theorem read?_toString_iff (h : read? s = some l) :
    read? l.toString = some l ↔ ∀ v ∈ l.innermost.variant, trimEnd v = v := by
  have hread := read?_eq_some_iff.1 h
  have hend : dropEndWhile isBlank (dropEndWhile isBlank s.toList) =
      dropEndWhile isBlank s.toList :=
    List.rdropWhile_idempotent _ _
  rw [read?_eq_some_iff, toList_toString, readLects?_dropEndWhile_iff (by simp [lects])
    (isNormal_of_read? h) (trimEnd_tag_of_readLects? hend hread), getLast?_lects]
  simp

/-- Bohairic of Egypt in English letters, and these in the script of an unknown language: the
    letters are in any case, what looks like a second region is a variant, and there are blank
    characters around the tag, behind a slash and inside the last variant. -/
theorem read?_toString_iff_of_nested :
    ∃ l, read? " CR-eg_BOH/ en-uk-US/Tlh-x y " = some l ∧
      l.toString = "cop-EG-boh/en-UK-us/tlh-x y" ∧ read? l.toString = some l := by
  have hread : read? " CR-eg_BOH/ en-uk-US/Tlh-x y " =
      some ⟨⟨.coptic, "cop", some "EG", some "boh"⟩,
        [⟨.english, "en", some "UK", some "us"⟩, ⟨.unknown, "tlh", none, some "x y"⟩]⟩ := rfl
  have hend : ∀ v ∈ some "x y", trimEnd v = v := by
    rintro _ ⟨⟩
    rfl
  exact ⟨_, hread, rfl, (read?_toString_iff hread).2 hend⟩

/-- A tag with a blank character between the variant and the region is read, and the text of what is
    read ends in that character, so the variant that is read back is another one. -/
theorem not_read?_toString :
    ¬ ∀ s l, read? s = some l → read? l.toString = some l := fun h => by
  have hread : read? "cop-boh -US" =
      some ⟨⟨.coptic, "cop", some "US", some "boh "⟩, []⟩ := rfl
  have hback : read? (toString ⟨⟨.coptic, "cop", some "US", some "boh "⟩, []⟩) =
      some ⟨⟨.coptic, "cop", some "US", some "boh"⟩, []⟩ := rfl
  exact absurd (hback.symm.trans (h _ _ hread)) (by simp)

end Language

/-! ## Composition -/

namespace KnownLanguage

/-- A tag of a known language is one of the table, up to the case of its letters. -/
theorem exists_entry_of_ofTag? {tag : String} {known : KnownLanguage}
    (h : ofTag? tag = some known) :
    ∃ entry, foldAscii entry = foldAscii tag ∧
      (entry = known.tag ∨ entry ∈ aliases.map Prod.fst) := by
  rw [ofTag?, Option.or_eq_some_iff] at h
  obtain h | ⟨-, h⟩ := h
  · have heq : eqIgnoringAsciiCase known.tag tag = true := by simpa using List.find?_some h
    exact ⟨known.tag, beq_iff_eq.1 heq, .inl rfl⟩
  · obtain ⟨entry, hentry, rfl⟩ := Option.map_eq_some_iff.1 h
    have heq : eqIgnoringAsciiCase entry.1 tag = true := by simpa using List.find?_some hentry
    exact ⟨entry.1, beq_iff_eq.1 heq,
      .inr (List.mem_map_of_mem (List.mem_of_find?_eq_some hentry))⟩

/-- All tags of known languages but one consist of letters. -/
theorem isAlpha_of_ofTag? {tag : String} {known : KnownLanguage} (h : ofTag? tag = some known)
    (hne : foldAscii tag ≠ "x-ipa") : tag ≠ "" ∧ ∀ c ∈ tag.toList, c.isAlpha = true := by
  obtain ⟨entry, hfold, hentry⟩ := exists_entry_of_ofTag? h
  have halpha : entry ≠ "" ∧ entry.toList.all Char.isAlpha = true := by
    rcases hentry with rfl | hentry
    · exact ⟨(Lect.isSubtag_tag known).ne_empty, Lect.isAlpha_tag known⟩
    · simp only [aliases, List.map_cons, List.map_nil, List.mem_cons, List.not_mem_nil,
        or_false] at hentry
      rcases hentry with rfl | rfl | rfl | rfl
      · exact ⟨nofun, rfl⟩
      · exact ⟨nofun, rfl⟩
      · exact ⟨nofun, rfl⟩
      · exact absurd (hfold.symm.trans rfl) hne
  have hchars : entry.toList.map Char.toLower = tag.toList.map Char.toLower := by
    simpa [foldAscii] using congrArg String.toList hfold
  refine ⟨?_, fun c hc => ?_⟩
  · rintro rfl
    exact halpha.1 (by simpa using hchars)
  · obtain ⟨d, hd, he⟩ := List.mem_map.1 (hchars ▸ List.mem_map_of_mem hc)
    rw [← Char.isAlpha_toLower_eq_isAlpha, ← he, Char.isAlpha_toLower_eq_isAlpha]
    exact List.all_eq_true.1 halpha.2 d hd

end KnownLanguage

namespace Lect

/-- A tag of a known language, with a region and a variant in their places, can be cut into what it
    was put together from, and does not end in a blank character. -/
theorem isLegible_of_ofTag? {l : Lect} (hknown : KnownLanguage.ofTag? l.tag = some l.known)
    (hne : foldAscii l.tag ≠ "x-ipa") (hregion : ∀ r ∈ l.region, isRegion r.toList = true)
    (hvariant : ∀ v ∈ l.variant, v ≠ "" ∧
      ∀ c ∈ v.toList, isSeparator c = false ∧ c ≠ '/' ∧ isBlank c = false)
    (hplace : ∀ v ∈ l.variant, isRegion v.toList = true → l.region.isSome = true) :
    IsLegible l ∧ dropEndWhile isBlank l.toString.toList = l.toString.toList := by
  obtain ⟨hempty, halpha⟩ := KnownLanguage.isAlpha_of_ofTag? hknown hne
  have hlegible : IsLegible l := by
    refine ⟨⟨hempty, List.all_eq_true.2 fun c hc => isPlain_of_isAlpha (halpha c hc)⟩,
      fun c hc => isBlank_of_isAlpha (halpha c (List.mem_of_mem_head? hc)), hregion,
      fun v hv => ⟨(hvariant v hv).1, List.all_eq_true.2 fun c hc => ?_⟩, hplace⟩
    obtain ⟨hseparator, hslash, -⟩ := (hvariant v hv).2 c hc
    simp [isPlain, hseparator, hslash]
  refine ⟨hlegible, dropEndWhile_of_isLegible hlegible (fun _ _ => ?_) fun v hv => ?_⟩
  · exact trimEnd_of_forall fun c hc => isBlank_of_isAlpha (halpha c hc)
  · exact trimEnd_of_forall fun c hc => ((hvariant v hv).2 c hc).2.2

/-- A tag of a known language stands for it, but for the one that is cut in two. -/
theorem ofSubtag_of_ofTag? {tag : String} {known : KnownLanguage}
    (h : KnownLanguage.ofTag? tag = some known) : ofSubtag tag = ofKnown known := by
  have hstar : tag ≠ "*" := by
    rintro rfl
    cases h
  rw [ofSubtag, if_neg hstar, h]

end Lect

namespace Language

/-- A tag behind its slash, if there is one. -/
def slashed : Option String → String
  | none => ""
  | some s => "/" ++ s

/-- **Tags are put together from their parts.**  For every tag of a known language, in any letter
    case, except the one with a separator in it; for every region of two letters or three digits,
    every variant without separators, slashes and blank characters that is not taken for a region,
    and every tag that is read as a language, each of them present or not: the tag with the region
    and the variant behind hyphens and the other tag behind a slash is read as the known language,
    with the region in uppercase, the variant in lowercase, and what is read of the other tag as
    its script. -/
theorem read?_composed {tag : String} {known : KnownLanguage}
    {region variant secondary : Option String} (hknown : KnownLanguage.ofTag? tag = some known)
    (hne : foldAscii tag ≠ "x-ipa") (hregion : ∀ r ∈ region, Lect.isRegion r.toList = true)
    (hvariant : ∀ v ∈ variant, v ≠ "" ∧
      ∀ c ∈ v.toList, Lect.isSeparator c = false ∧ c ≠ '/' ∧ isBlank c = false)
    (hplace : ∀ v ∈ variant, Lect.isRegion v.toList = true → region.isSome = true)
    (hsecondary : ∀ s ∈ secondary, (read? s).isSome = true) :
    ∃ l, read? (tag ++ Lect.hyphenated region ++ Lect.hyphenated variant ++ slashed secondary) =
        some l ∧
      l.lect = { known, tag := known.tag, region := region.map raiseAscii,
                 variant := variant.map foldAscii } ∧
      l.secondary = secondary.bind read? := by
  let text : Lect := { known, tag, region, variant }
  let lect : Lect := { known, tag := known.tag, region := region.map raiseAscii,
                       variant := variant.map foldAscii }
  obtain ⟨hlegible, hend⟩ := Lect.isLegible_of_ofTag? (l := text) hknown hne hregion hvariant hplace
  have hslash := Lect.not_slash_of_isLegible hlegible
  have hread : Lect.read? (text.toString.toList.dropWhile isBlank) = some lect := by
    rw [Lect.dropWhile_of_isLegible hlegible, Lect.read?_of_isLegible hlegible,
      Lect.ofSubtag_of_ofTag? hknown]
    rfl
  have htext : ∀ behind : String,
      (tag ++ Lect.hyphenated region ++ Lect.hyphenated variant ++ behind).toList =
        text.toString.toList ++ behind.toList := fun _ => String.toList_append
  cases secondary with
  | none =>
    refine ⟨⟨lect, []⟩, read?_eq_some_iff.2 ?_, rfl, rfl⟩
    rw [htext, slashed, String.toList_empty, List.append_nil, hend, readLects?_single hslash, hread]
    rfl
  | some s =>
    obtain ⟨script, hscript⟩ := Option.isSome_iff_exists.1 (hsecondary s rfl)
    have hsecondary : secondary ⟨lect, script.lects⟩ = some script := rfl
    refine ⟨⟨lect, script.lects⟩, read?_eq_some_iff.2 ?_, rfl, ?_⟩
    swap
    · rw [hsecondary, Option.bind_some, hscript]
    have hbehind : (slashed (some s)).toList = '/' :: s.toList := by
      simp [slashed]
    rw [htext, hbehind, dropEndWhile_append_cons (by decide), readLects?_append_cons hslash, hread,
      read?_eq_some_iff.1 hscript]
    rfl

/-- A further tag of Greek in capitals, with a region of three digits, a variant that would be a
    region by itself, and behind the slash a tag with blank characters around it and a script of
    its own. -/
theorem read?_composed_of_greek :
    ∃ l, read? ("GRC" ++ Lect.hyphenated (some "419") ++ Lect.hyphenated (some "Pt") ++
        slashed (some " en_us/cop ")) = some l ∧
      l.lect = ⟨.greek, "el", some "419", some "pt"⟩ ∧
      l.secondary = read? " en_us/cop " ∧ l.toString = "el-419-pt/en-US/cop" := by
  have hvariant : ∀ v ∈ some "Pt", v ≠ "" ∧
      ∀ c ∈ v.toList, Lect.isSeparator c = false ∧ c ≠ '/' ∧ isBlank c = false := by
    rintro _ ⟨⟩
    refine ⟨by decide, fun c hc => ?_⟩
    obtain rfl | rfl : c = 'P' ∨ c = 't' := by simpa using hc
    · decide
    · decide
  have hne : foldAscii "GRC" ≠ "x-ipa" := by
    rw [show foldAscii "GRC" = "grc" from rfl]
    simp
  have hread : read? " en_us/cop " =
      some ⟨⟨.english, "en", some "US", none⟩, [⟨.coptic, "cop", none, none⟩]⟩ := rfl
  have hscript : ∀ s ∈ some " en_us/cop ", (read? s).isSome = true := by
    rintro _ ⟨⟩
    rw [hread]
    rfl
  obtain ⟨⟨lect, scripts⟩, hcomposed, hlect, hsecondary⟩ := read?_composed
    (show KnownLanguage.ofTag? "GRC" = some .greek from rfl) hne
    (show ∀ r ∈ some "419", Lect.isRegion r.toList = true by rintro _ ⟨⟩; rfl) hvariant
    (fun _ _ _ => rfl) hscript
  refine ⟨_, hcomposed, hlect, hsecondary, ?_⟩
  replace hsecondary := hsecondary.trans hread
  rcases scripts with _ | ⟨script, scripts⟩
  · cases hsecondary
  · cases hsecondary
    rw [show lect = ⟨.greek, "el", some "419", some "pt"⟩ from hlect]
    rfl

/-- The further tag of phonetic script is cut at its hyphen, and its first half is the tag of no
    known language. -/
theorem not_read?_of_ofTag? :
    ¬ ∀ tag known, KnownLanguage.ofTag? tag = some known →
      ∃ l, read? tag = some l ∧ l.known = known := fun h => by
  obtain ⟨l, hread, hknown⟩ := h "x-ipa" .ipa rfl
  have hl : some l = some ⟨⟨.unknown, "x", none, some "ipa"⟩, []⟩ := hread.symm.trans rfl
  rw [Option.some.inj hl] at hknown
  cases hknown

end Language

end Rubric
