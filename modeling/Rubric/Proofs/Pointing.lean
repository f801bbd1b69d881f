/-
  Rubric — parse errors point at a brace.

  The reader counts bytes, and so does the search for the line of an offset; the column is a
  number of characters.  They agree where texts are cut between characters.

  * `IsLine`: a line of a text between what is above and what is below;
  * `splitAtByte_byteSize`, `slice?_byteSize`: offsets between characters cut a text there;
  * `IsLine.lineAt`, **`IsLine.locate`**: the line and the column of such an offset;
  * `brace_of_group_mem`: what the scan remembers of a group is the offset of a brace;
  * **`snippet_of_parse_error`**: the note of a parse error shows the line with the brace of the
    innermost group that is open, and points at this brace.
-/
import Rubric.Error.Report
import Rubric.Proofs.Braces

namespace Rubric

open Text

/-! ## Lines -/

namespace Text

variable {above line below start rest u v w : List Char}

/-- The line stands in a text below what ends in a line feed, and above what begins with one. -/
structure IsLine (above line below : List Char) : Prop where
  above : above = [] ∨ ∃ u, above = u ++ ['\n']
  line : '\n' ∉ line
  below : below = [] ∨ ∃ v, below = '\n' :: v

/-- Every place in a text is on a line. -/
theorem exists_isLine (before behind : List Char) : ∃ above start rest below,
    before = above ++ start ∧ behind = rest ++ below ∧ IsLine above (start ++ rest) below := by
  have habove : ∃ above start, before = above ++ start ∧ '\n' ∉ start ∧
      (above = [] ∨ ∃ u, above = u ++ ['\n']) := by
    induction before using List.reverseRecOn with
    | nil => exact ⟨[], [], rfl, by simp, Or.inl rfl⟩
    | append_singleton u c ih =>
      by_cases hc : c = '\n'
      · exact ⟨u ++ [c], [], by simp, by simp, Or.inr ⟨u, by rw [hc]⟩⟩
      · obtain ⟨above, start, rfl, hstart, habove⟩ := ih
        exact ⟨above, start ++ [c], by simp, by simp [hstart, Ne.symm hc], habove⟩
  have hbelow : ∃ rest below, behind = rest ++ below ∧ '\n' ∉ rest ∧
      (below = [] ∨ ∃ v, below = '\n' :: v) := by
    induction behind with
    | nil => exact ⟨[], [], rfl, by simp, Or.inl rfl⟩
    | cons c v ih =>
      by_cases hc : c = '\n'
      · exact ⟨[], c :: v, rfl, by simp, Or.inr ⟨v, by rw [hc]⟩⟩
      · obtain ⟨rest, below, rfl, hrest, hbelow⟩ := ih
        exact ⟨c :: rest, below, rfl, by simp [hrest, Ne.symm hc], hbelow⟩
  obtain ⟨above, start, hbefore, hstart, habove⟩ := habove
  obtain ⟨rest, below, hbehind, hrest, hbelow⟩ := hbelow
  exact ⟨above, start, rest, below, hbefore, hbehind, habove, by simp [hstart, hrest], hbelow⟩

namespace IsLine

/-- There are as many lines above as line feeds. -/
theorem getElem?_splitOn (h : IsLine above line below) :
    ((above ++ line ++ below).splitOn '\n')[above.count '\n']? = some line := by
  have hlast : ((line ++ below).splitOn '\n')[0]? = some line := by
    rcases h.below with rfl | ⟨v, rfl⟩
    · rw [List.append_nil, List.splitOn_eq_singleton h.line]
      rfl
    · rw [List.splitOn_append_cons_self_of_not_mem h.line]
      rfl
  have hlength : ∀ u : List Char, (u.splitOn '\n').length = u.count '\n' + 1 := by
    intro u
    induction u with
    | nil => rfl
    | cons c u ih => rw [List.splitOn_cons_eq_if_modifyHead]; split <;> simp_all
  rcases h.above with rfl | ⟨u, rfl⟩
  · exact hlast
  · rw [List.append_assoc, List.append_assoc, List.singleton_append,
      List.splitOn_append_cons_self, List.count_append, List.count_singleton_self, ← hlength,
      List.getElem?_append_right (Nat.le_refl _), Nat.sub_self]
    exact hlast

/-- The line ends at the next line feed, or at the end. -/
theorem takeWhile (h : IsLine above line below) :
    (line ++ below).takeWhile (· != '\n') = line := by
  have hline : ∀ c ∈ line, (c != '\n') = true := fun c hc => by
    simpa using fun he : c = '\n' => h.line (he ▸ hc)
  rw [List.takeWhile_append_of_pos hline]
  rcases h.below with rfl | ⟨v, rfl⟩ <;> simp

end IsLine

/-! ## Offsets -/

/-- **An offset between two characters cuts the text there.** -/
theorem splitAtByte_byteSize (u v : List Char) :
    splitAtByte (byteSize u) (u ++ v) = some (u, v) := by
  induction u with
  | nil => cases v <;> rfl
  | cons c u ih =>
    obtain ⟨n, hn⟩ := Nat.exists_eq_succ_of_ne_zero
      (Nat.ne_of_gt (Nat.add_pos_left c.utf8Size_pos (byteSize u)))
    have hrest : n + 1 - c.utf8Size = byteSize u := by omega
    rw [byteSize, hn, List.cons_append, splitAtByte, if_neg (by omega), hrest, ih]
    rfl

theorem slice?_byteSize (u v w : List Char) :
    slice? (byteSize u) (byteSize (u ++ v)) (u ++ v ++ w) = some v := by
  rw [slice?, splitAtByte_byteSize]
  dsimp only [Option.bind_eq_bind, Option.bind_some]
  rw [splitAtByte_byteSize]
  rfl

/-! ## The line of an offset -/

section
variable {position i : Nat} {s : LineStart}

theorem lineAt_of_le (h : position ≤ i) : lineAt position i s u = s := by
  cases u with
  | nil => rfl
  | cons c u => rw [lineAt, if_pos h]

/-- Before the position, characters that are no line feeds leave the line as it is. -/
theorem lineAt_of_not_mem (h : '\n' ∉ u) (hp : i + byteSize u ≤ position) :
    lineAt position i s (u ++ v) = lineAt position (i + byteSize u) s v := by
  induction u generalizing i with
  | nil => rfl
  | cons c u ih =>
    have hpos := c.utf8Size_pos
    have hc : c ≠ '\n' := fun he => h (he ▸ List.mem_cons_self)
    rw [byteSize] at hp ⊢
    rw [List.cons_append, lineAt, if_neg (by omega), if_neg hc,
      ih (fun hmem => h (List.mem_cons_of_mem c hmem)) (by omega), Nat.add_assoc]

/-- Behind a line feed before the position a line begins, with a number that all line feeds so far
    count for. -/
theorem lineAt_of_feed (hp : i + byteSize (u ++ ['\n']) ≤ position) :
    lineAt position i s (u ++ ['\n'] ++ v) = lineAt position (i + byteSize (u ++ ['\n'])) {
      offset := i + byteSize (u ++ ['\n'])
      number := s.number + (u ++ ['\n']).count '\n' } v := by
  induction u generalizing i s with
  | nil =>
    have hsize : byteSize ['\n'] = 1 := rfl
    rw [List.nil_append, hsize] at hp ⊢
    rw [List.singleton_append, lineAt, if_neg (by omega), if_pos rfl]
    rfl
  | cons c u ih =>
    have hpos := c.utf8Size_pos
    rw [List.cons_append, byteSize] at hp ⊢
    rw [List.cons_append, lineAt, if_neg (by omega), ih (by omega), Nat.add_assoc,
      List.count_cons]
    split <;> simp_all [Nat.add_comm, Nat.add_left_comm]

end

namespace IsLine

variable (h : IsLine above (start ++ rest) below)
include h

/-- **The line of an offset**: it begins behind what is above, and as many line feeds are there. -/
theorem lineAt : lineAt (byteSize (above ++ start)) 0 {} (above ++ (start ++ rest) ++ below) =
    { offset := byteSize above, number := above.count '\n' + 1 } := by
  have hstart : '\n' ∉ start := fun hmem => h.line (List.mem_append_left rest hmem)
  have hsize := Markup.byteSize_append above start
  rw [List.append_assoc, List.append_assoc]
  rcases h.above with rfl | ⟨u, rfl⟩
  · rw [List.nil_append, List.nil_append, lineAt_of_not_mem hstart (by omega),
      lineAt_of_le (by omega)]
    rfl
  · rw [lineAt_of_feed (by omega), lineAt_of_not_mem hstart (by omega), lineAt_of_le (by omega)]
    simp [Nat.add_comm]

/-- **The place of an offset** between two characters of a line. -/
theorem locate {source : String} (hsource : source.toList = above ++ (start ++ rest) ++ below) :
    locate source (byteSize (above ++ start)) = some {
      line := above.count '\n' + 1
      content := String.ofList (start ++ rest)
      column := start.length } := by
  have hposition : min (byteSize (above ++ start)) (byteSize source.toList) =
      byteSize (above ++ start) := by
    rw [hsource, ← List.append_assoc above, List.append_assoc (above ++ start)]
    rw [Markup.byteSize_append (above ++ start)]
    exact Nat.min_eq_left (Nat.le_add_right _ _)
  have hstop : byteSize above + byteSize (start ++ rest) = byteSize (above ++ (start ++ rest)) :=
    (Markup.byteSize_append _ _).symm
  have hbehind : splitAtByte (byteSize above) (above ++ (start ++ rest) ++ below) =
      some (above, start ++ rest ++ below) := by
    rw [List.append_assoc, splitAtByte_byteSize]
  have hbefore : slice? (byteSize above) (byteSize (above ++ start))
      (above ++ (start ++ rest) ++ below) = some start := by
    rw [← List.append_assoc above, List.append_assoc (above ++ start), slice?_byteSize]
  rw [Text.locate]
  dsimp only
  rw [hposition, hsource, h.lineAt, hbehind]
  dsimp only [Option.bind_eq_bind, Option.bind_some]
  rw [h.takeWhile, hstop, slice?_byteSize, hbefore]
  rfl

end IsLine

end Text

/-! ## Groups -/

namespace Markup

variable {commands : Commands} {u : List Char} {source text message : String}
  {position offset : Nat}

/-- **What is remembered of an open group is the offset of a brace.** -/
theorem brace_of_group_mem (h : .group offset ∈ (scan u).braces) :
    ∃ before behind, u = before ++ '\x7b' :: behind ∧ byteSize before = offset := by
  induction u using List.reverseRecOn with
  | nil => simp at h
  | append_singleton u c ih =>
    have hnew : .group offset ∈ (scan u).braces ∨ c = '\x7b' ∧ byteSize u = offset := by
      rw [scan_concat, Scan.step, before_scan, byteSize_reverse] at h
      dsimp only at h
      split at h
      · split at h
        · rcases List.mem_cons.1 h with hnew | hold
          · exact Or.inr ⟨‹_›, (Brace.group.inj hnew).symm⟩
          · exact Or.inl hold
        · split at h
          · cases h
          · exact Or.inl (by simpa using h)
      · split at h
        · exact Or.inl (List.mem_of_mem_tail h)
        · exact Or.inl h
    rcases hnew with hold | ⟨rfl, hoffset⟩
    · obtain ⟨before, behind, rfl, hoffset⟩ := ih hold
      exact ⟨before, behind ++ [c], by simp, hoffset⟩
    · exact ⟨u, [], rfl, hoffset⟩

theorem brace_of_openGroup? (h : (scan u).openGroup? = some offset) :
    ∃ before behind, u = before ++ '\x7b' :: behind ∧ byteSize before = offset := by
  obtain ⟨brace, hmem, hbrace⟩ := List.exists_of_findSome?_eq_some h
  cases brace with
  | group => cases hbrace; exact brace_of_group_mem hmem
  | literal => cases hbrace

/-- A parse error reports the innermost group that is open behind the text. -/
theorem openGroup?_of_parse_error
    (h : parse commands source = .error (.parse text position message)) :
    source = text ∧ (scan source.toList).openGroup? = some position := by
  have hrun := @Reader.run_outcome commands {} trivial source.toList
  split at hrun
  · rcases hr : source.toList.foldlM (Reader.step commands) {} with e | r <;> rw [hr] at hrun
    · cases (show Except.error e = Except.error _ from hrun)
      simp [parse, hr, bind, Except.bind] at h
    · have hs : r.settle commands = .error _ := hrun
      simp [parse, hr, Reader.finish, hs, bind, Except.bind] at h
  · obtain ⟨r, s, hr, hs⟩ := hrun
    have hgroup := openGroup?_of_tracks (tracks_of_run hr) hs
    rcases hg : s.groups with _ | ⟨group, outer⟩ <;> rw [hg] at hgroup
    · cases h.symm.trans (parse_eq_ok.2 ⟨r, s, hr, hs, hg, rfl⟩)
    · cases h.symm.trans (parse_eq_error hr hs hg)
      exact ⟨rfl, hgroup⟩

/-- **Parse errors point at the brace.**  The source note of a parse error, without colours, is
    always shown.  It gives the number of the line, one more than the line feeds before the
    reported position, and that line of the source; under it the caret stands below the brace
    that opens the innermost parameter group left open, whatever characters come before it. -/
theorem snippet_of_parse_error
    (h : parse commands source = .error (.parse text position message)) :
    ∃ (above start rest below : List Char) (line column : Nat) (shown : String),
      source.toList = above ++ (start ++ '\x7b' :: rest) ++ below ∧
      byteSize (above ++ start) = position ∧
      (scan source.toList).openGroup? = some position ∧
      line = (above ++ start).count '\n' + 1 ∧
      (source.toList.splitOn '\n')[line - 1]? = some shown.toList ∧
      column = start.length + 1 ∧ shown.toList = start ++ '\x7b' :: rest ∧
      (Cause.notes .plain (.parse text position message)).mapM (Note.render? .plain) =
        some [s!"at line {line}, column {column}:\n{shown}\n" ++
          String.ofList (List.replicate (column - 1) ' ') ++ "^"] := by
  obtain ⟨rfl, hgroup⟩ := openGroup?_of_parse_error h
  obtain ⟨before, behind, hsource, rfl⟩ := brace_of_openGroup? hgroup
  obtain ⟨above, start, rest, below, rfl, hbehind, hline⟩ := exists_isLine before ('\x7b' :: behind)
  -- the brace is no line feed, so that it is on the line
  obtain ⟨rest, rfl⟩ : ∃ rest', rest = '\x7b' :: rest' := by
    rcases rest with _ | ⟨c, rest⟩
    · rcases hline.below with rfl | ⟨v, rfl⟩ <;> simp at hbehind
    · rw [List.cons_append, List.cons.injEq] at hbehind
      exact ⟨rest, by rw [hbehind.1]⟩
  have htext : source.toList = above ++ (start ++ '\x7b' :: rest) ++ below := by
    rw [hsource, hbehind]
    simp
  have hcount : (above ++ start).count '\n' = above.count '\n' := by
    have hstart : '\n' ∉ start := fun hmem => hline.line (List.mem_append_left _ hmem)
    rw [List.count_append, List.count_eq_zero_of_not_mem hstart, Nat.add_zero]
  refine ⟨above, start, rest, below, _, _, String.ofList (start ++ '\x7b' :: rest), htext, rfl,
    hgroup, rfl, ?_, rfl, String.toList_ofList, ?_⟩
  · rw [Nat.add_sub_cancel, hcount, htext, String.toList_ofList]
    exact hline.getElem?_splitOn
  · rw [Cause.notes, List.mapM_cons, Note.render?, hline.locate htext, ← hcount]
    rfl

/-- A footnote is left open in a parameter, behind letters of two bytes and a line feed; inside it
    a literal brace is closed again. -/
theorem snippet_of_open_footnote : ∃ source message : String,
    parse .builtIn source = .error (.parse source 26 message) ∧
      (∃ (start rest : List Char) (line column : Nat) (shown : String),
        (source.toList.splitOn '\n')[line - 1]? = some shown.toList ∧
        column = start.length + 1 ∧ shown.toList = start ++ '\x7b' :: rest ∧
        (Cause.notes .plain (.parse source 26 message)).mapM (Note.render? .plain) =
          some [s!"at line {line}, column {column}:\n{shown}\n" ++
            String.ofList (List.replicate (column - 1) ' ') ++ "^"]) ∧
      (Note.snippet source 26).render? .plain =
        some "at line 2, column 14:\n βγ \\footnote\x7b δ\n             ^" := by
  obtain ⟨source, hsource⟩ : ∃ source, source = "\\lines\x7bα|\n βγ \\footnote\x7b δ\n\x7b\x7d" :=
    ⟨_, rfl⟩
  have hparse : parse .builtIn source = .error (.parse source 26
      "unterminated parameter group for the command \\footnote") := by
    rw [hsource]
    rfl
  obtain ⟨-, start, rest, -, line, column, shown, -, -, -, -, hline, hcolumn, hshown, hnotes⟩ :=
    snippet_of_parse_error hparse
  refine ⟨source, _, hparse, ⟨start, rest, line, column, shown, hline, hcolumn, hshown, hnotes⟩, ?_⟩
  rw [hsource]
  decide +kernel

end Markup

end Rubric
