/-
  Rubric — braces and names in markup, without its inlines.

  Which braces of a text open a parameter group, and which names it uses, can be
  told from its characters alone, from left to right.

  * `names`: the names, each a run of name characters behind a backslash;
  * `scan`: the braces that are open behind a text.  A brace opens a group if it
    follows a name or a group; inside a group any other one is literal;
  * `Scan.written`: the text with a bar for each two braces between groups of a
    command;
  * `Tracks`: the reader and the scan are at one;
  * **`join_sources_of_parse`**: what is written for the inlines of a text;
  * **`parse_outcome`**: how the reading of a text ends.
-/
import Mathlib.Data.List.Induction
import Rubric.Proofs.Writing
import Rubric.Text.Location

namespace Rubric.Markup

open Text

/-! ## Names -/

/-- The names that are used in a text, in order. -/
def names : List Char → List String
  | [] => []
  | c :: rest =>
    if c = '\\' then
      match rest.takeWhile isNameChar with
      | [] => names rest
      | letters => String.ofList letters :: names rest
    else names rest

/-! ## Braces -/

/-- A brace that is open. -/
inductive Brace where
  /-- It opens a parameter group, at a byte offset. -/
  | group (offset : Nat)
  /-- It is literal, inside a parameter. -/
  | literal
  deriving DecidableEq

/-- The offset of a brace that opens a group. -/
def Brace.offset? : Brace → Option Nat
  | group offset => some offset
  | literal => none

/-- What can be told of a text from its characters. -/
structure Scan where
  /-- The characters, the last one first. -/
  before : List Char := []
  /-- The braces that are open, the innermost first. -/
  braces : List Brace := []
  /-- The last character closes a group. -/
  closed : Bool := false
  /-- The characters, the last one first, with a bar for each two braces that stand between
      groups of a command. -/
  written : List Char := []

namespace Scan

/-- The text ends with a name behind a backslash. -/
def endsInName (s : Scan) : Bool :=
  s.before.head?.any isNameChar && (s.before.dropWhile isNameChar).head? == some '\\'

/-- One more character. -/
def step (s : Scan) (c : Char) : Scan where
  before := c :: s.before
  braces :=
    if c = '\x7b' then
      if s.closed || s.endsInName then .group (byteSize s.before) :: s.braces
      else if s.braces.isEmpty then [] else .literal :: s.braces
    else if c = '\x7d' then s.braces.tail
    else s.braces
  closed := c = '\x7d' && (s.braces.head?.bind Brace.offset?).isSome
  written := if c = '\x7b' && s.closed then '|' :: s.written.tail else c :: s.written

/-- The offset of the brace that opens the innermost open group. -/
def openGroup? (s : Scan) : Option Nat :=
  s.braces.findSome? Brace.offset?

end Scan

/-- What can be told of a text. -/
def scan (u : List Char) : Scan :=
  u.foldl Scan.step {}

@[simp] theorem scan_nil : scan [] = {} := rfl

@[simp] theorem scan_concat (u : List Char) (c : Char) : scan (u ++ [c]) = (scan u).step c := by
  rw [scan, List.foldl_append]; rfl

@[simp] theorem before_scan (u : List Char) : (scan u).before = u.reverse := by
  induction u using List.reverseRecOn with
  | nil => rfl
  | append_singleton u c ih => rw [scan_concat, Scan.step, ih]; simp

/-- A character other than a brace leaves the braces as they are. -/
theorem scan_of_plain {u : List Char} {c : Char} (hopen : c ≠ '\x7b') (hclose : c ≠ '\x7d') :
    (scan (u ++ [c])).braces = (scan u).braces ∧ (scan (u ++ [c])).closed = false := by
  simp [Scan.step, hopen, hclose]

/-- No group of a command follows another one. -/
def Unjoined (u : List Char) : Prop :=
  ∀ v w, u = v ++ '\x7b' :: w → (scan v).closed = false

theorem unjoined_concat {u : List Char} {c : Char} :
    Unjoined (u ++ [c]) ↔ Unjoined u ∧ (c = '\x7b' → (scan u).closed = false) := by
  constructor
  · intro h
    refine ⟨fun v w hu => h v (w ++ [c]) (by simp [hu]), ?_⟩
    rintro rfl
    exact h u [] rfl
  · rintro ⟨h, hc⟩ v w hu
    rcases List.eq_nil_or_concat w with rfl | ⟨w, c', rfl⟩
    · obtain ⟨rfl, hopen⟩ := List.append_inj' hu rfl
      exact hc (List.singleton_inj.1 hopen)
    · rw [List.concat_eq_append, ← List.cons_append, ← List.append_assoc] at hu
      exact h v w (List.append_inj' hu rfl).1

/-- The text is written as it is just if no group of a command follows another one. -/
theorem written_scan_eq_iff (u : List Char) : (scan u).written.reverse = u ↔ Unjoined u := by
  suffices h : (Unjoined u → (scan u).written = u.reverse) ∧
      (¬ Unjoined u → (scan u).written.length < u.length) by
    constructor
    · intro hu
      by_contra hjoined
      have hlt := h.2 hjoined
      rw [← List.length_reverse, hu] at hlt
      exact Nat.lt_irrefl _ hlt
    · intro hu
      rw [h.1 hu, List.reverse_reverse]
  induction u using List.reverseRecOn with
  | nil =>
    refine ⟨fun _ => rfl, fun h => (h fun v w hu => ?_).elim⟩
    simp at hu
  | append_singleton u c ih =>
    obtain ⟨hunjoined, hjoined⟩ := ih
    have hclosed : (scan u).closed = true → u ≠ [] := by
      rintro hclosed rfl
      simp at hclosed
    have hle : (scan u).written.length ≤ u.length := by
      by_cases hu : Unjoined u
      · exact Nat.le_of_eq (by rw [hunjoined hu, List.length_reverse])
      · exact Nat.le_of_lt (hjoined hu)
    rw [unjoined_concat, scan_concat, Scan.step]
    dsimp only
    constructor
    · rintro ⟨hu, hc⟩
      have hno : (c = '\x7b' && (scan u).closed) = false := by
        by_cases hopen : c = '\x7b' <;> simp [hopen, hc]
      rw [hno, hunjoined hu]
      simp
    · intro hno
      by_cases hc : c = '\x7b' ∧ (scan u).closed = true
      · have hpos : 0 < u.length := List.length_pos_iff.2 (hclosed hc.2)
        rw [hc.1, hc.2]
        simp
        omega
      · have hu : ¬ Unjoined u := fun hu => hno ⟨hu, fun hopen => by simpa [hopen] using hc⟩
        have hlt := hjoined hu
        have hif : (c = '\x7b' && (scan u).closed) = false := by
          rw [Bool.eq_false_iff]
          simpa using hc
        rw [hif]
        simpa using hlt

/-! ## The reader -/

theorem byteSize_append (u v : List Char) : byteSize (u ++ v) = byteSize u + byteSize v := by
  induction u with
  | nil => simp [byteSize]
  | cons c u ih => rw [List.cons_append, byteSize, byteSize, ih, Nat.add_assoc]

theorem byteSize_reverse (u : List Char) : byteSize u.reverse = byteSize u := by
  induction u with
  | nil => rfl
  | cons c u ih => rw [List.reverse_cons, byteSize_append, ih, byteSize, byteSize, byteSize]; omega

/-- The braces that are open in groups, where a passage stands in the innermost one. -/
def Group.braces (p : Passage) : List Group → List Brace
  | [] => []
  | group :: outer =>
    List.replicate p.depth .literal ++ .group group.offset :: braces group.outer outer

/-- The characters that the reader has not made anything of. -/
def Mode.pending : Mode → List Char
  | .text | .command .. => []
  | .backslash => ['\\']
  | .name letters => '\\' :: letters.toList

variable {commands : Commands} {u v : List Char} {r s next : Reader} {c : Char}

/-- A text that does not end in a name that may go on. -/
theorem plain_concat (hc : c ≠ '\\')
    (h : isNameChar c → (u.reverse.dropWhile isNameChar).head? ≠ some '\\') :
    ((u ++ [c]).reverse.dropWhile isNameChar).head? ≠ some '\\' := by
  rw [List.reverse_append, List.reverse_singleton, List.singleton_append, List.dropWhile_cons]
  split
  · exact h ‹_›
  · simpa using hc

theorem groups_of_settle (hs : r.settle commands = .ok s) : s.groups = r.groups ∧
    Group.braces s.passage s.groups = Group.braces r.passage r.groups := by
  have hdepth : ∀ {p p' : Passage} (groups : List Group), p'.depth = p.depth →
      Group.braces p' groups = Group.braces p groups := by
    rintro p p' (_ | ⟨group, outer⟩) hdepth
    · rfl
    · rw [Group.braces, Group.braces, hdepth]
  rcases Reader.settle_eq_ok.1 hs with ⟨-, rfl⟩ | ⟨-, rfl⟩ | ⟨name, kind, parameters, -, rfl⟩
  · exact ⟨rfl, rfl⟩
  · exact ⟨rfl, hdepth _ rfl⟩
  · exact ⟨rfl, hdepth _ rfl⟩

/-- A literal brace of a parameter is one that is open, or closes one; outside of parameters no
    brace is. -/
theorem scan_of_literal {p : Passage} {groups : List Group} {depth : Nat}
    (hbraces : (scan u).braces = Group.braces p groups)
    (hopens : c = '\x7b' → ((scan u).closed || (scan u).endsInName) = false)
    (hdepth : groups = [] ∧ depth = p.depth ∨ groups ≠ [] ∧ literalDepth p.depth c = some depth) :
    (scan (u ++ [c])).braces = Group.braces { p.push c with depth } groups ∧
      (scan (u ++ [c])).closed = false := by
  by_cases hplain : c ≠ '\x7b' ∧ c ≠ '\x7d'
  · obtain ⟨hsame, hclosed⟩ := scan_of_plain (u := u) hplain.1 hplain.2
    refine ⟨?_, hclosed⟩
    rw [hsame, hbraces]
    rcases hdepth with ⟨rfl, -⟩ | ⟨hg, hdepth⟩
    · rfl
    · obtain ⟨group, outer, rfl⟩ := List.exists_cons_of_ne_nil hg
      simp only [literalDepth, if_neg hplain.1, if_neg hplain.2] at hdepth
      have he : depth = p.depth := by grind
      rw [he, Group.braces, Group.braces]
  rw [scan_concat, Scan.step, hbraces]
  dsimp only
  rcases hdepth with ⟨rfl, -⟩ | ⟨hg, hdepth⟩
  · rcases (by simpa [-not_and, not_and_or] using hplain : c = '\x7b' ∨ c = '\x7d') with rfl | rfl
    · simp [Group.braces, hopens]
    · simp [Group.braces]
  obtain ⟨group, outer, rfl⟩ := List.exists_cons_of_ne_nil hg
  rw [Group.braces, Group.braces]
  rcases (by simpa [-not_and, not_and_or] using hplain : c = '\x7b' ∨ c = '\x7d') with rfl | rfl
  · obtain rfl : p.depth + 1 = depth := by simpa [literalDepth] using hdepth
    simp [hopens, List.replicate_succ]
  · rcases hp : p.depth with _ | n <;> simp [literalDepth, hp] at hdepth
    simp [List.replicate_succ, Brace.offset?, hdepth]

/-- Behind a text the reader is at one with what can be told of the text. -/
structure Tracks (u : List Char) (r : Reader) : Prop where
  begun : r.mode.IsBegun
  offset : r.offset = byteSize u
  braces : (scan u).braces = Group.braces r.passage r.groups
  closed : (scan u).closed = true ↔ ∃ name kind parameters, r.mode = .command name kind parameters
  pending : ∃ v, u = v ++ r.mode.pending
  plain : r.mode.pending = [] → (u.reverse.dropWhile isNameChar).head? ≠ some '\\'
  written : (scan u).written.reverse = r.written

namespace Tracks

theorem start : Tracks [] {} where
  begun := trivial
  offset := rfl
  braces := rfl
  closed := by simp
  pending := ⟨[], rfl⟩
  plain := by simp
  written := rfl

section
variable (h : Tracks u r)
include h

/-- Only behind a name or a command does a brace open a group. -/
theorem opens_iff :
    ((scan u).closed || (scan u).endsInName) = true ↔ r.mode.Takes '\x7b' := by
  obtain ⟨v, hv⟩ := h.pending
  have hbegun := h.begun
  have hclosed := h.closed
  have hplain := h.plain
  have hopen := not_isNameChar_open
  have hbackslash := not_isNameChar_backslash
  rw [Bool.or_eq_true, hclosed, Scan.endsInName, before_scan]
  rcases hm : r.mode with _ | _ | letters | ⟨name, kind, parameters⟩ <;>
    rw [hm] at hv hbegun hplain
  · simpa [Mode.Takes] using fun _ => hplain rfl
  · simp [Mode.Takes, hopen, hv, Mode.pending, hbackslash]
  · obtain ⟨hne, hletters⟩ := hbegun
    have hhead : ∃ c ∈ letters.toList, letters.toList.reverse.head? = some c := by
      have hreverse : letters.toList.reverse ≠ [] := by
        simpa using fun hnil => hne (String.toList_inj.1 hnil)
      exact ⟨_, List.mem_reverse.1 (List.head_mem hreverse), List.head?_eq_some_head hreverse⟩
    obtain ⟨c, hc, hhead⟩ := hhead
    have hdrop : (letters.toList.reverse ++ '\\' :: v.reverse).dropWhile isNameChar =
        '\\' :: v.reverse := by
      rw [List.dropWhile_append_of_pos fun c hc => hletters c (List.mem_reverse.1 hc),
        List.dropWhile_cons, hbackslash]
      rfl
    simp [Mode.Takes, hv, Mode.pending, List.head?_append, hhead, hletters c hc, hdrop]
  · simp [Mode.Takes]

theorem joins_iff : r.Joins c ↔ (c = '\x7b' && (scan u).closed) = true := by
  rw [Bool.and_eq_true, decide_eq_true_iff, h.closed, Reader.Joins]

theorem written_step (hreads : r.Reads commands c next) :
    (scan (u ++ [c])).written.reverse = next.written := by
  obtain ⟨happends, hjoins⟩ := hreads.written h.begun
  rw [scan_concat, Scan.step]
  by_cases hc : r.Joins c
  · obtain ⟨w, hw, hnext⟩ := hjoins hc
    have hreverse : (scan u).written = '\x7d' :: w.reverse := by
      rw [List.reverse_eq_iff.1 h.written, hw]
      simp
    simp [h.joins_iff.1 hc, hreverse, hnext]
  · have hno := mt h.joins_iff.2 hc
    simp [Bool.eq_false_iff.2 hno, happends hc, h.written]

theorem offset_step : r.offset + c.utf8Size = byteSize (u ++ [c]) := by
  rw [h.offset, byteSize_append]
  rfl

/-- A name begins or goes on. -/
theorem letter {letters : String} (hc : isNameChar c)
    (hpending : r.mode.pending ++ [c] = '\\' :: letters.toList)
    (hname : IsName letters)
    (hwritten : (scan (u ++ [c])).written.reverse =
      ({ r with mode := .name letters } : Reader).written) :
    Tracks (u ++ [c]) { r with mode := .name letters, offset := r.offset + c.utf8Size } := by
  obtain ⟨v, hv⟩ := h.pending
  have hopen : c ≠ '\x7b' := by rintro rfl; simp [not_isNameChar_open] at hc
  have hclose : c ≠ '\x7d' := by rintro rfl; simp [not_isNameChar_close] at hc
  obtain ⟨hbraces, hclosed⟩ := scan_of_plain (u := u) hopen hclose
  refine ⟨hname, h.offset_step, hbraces.trans h.braces, ?_, ⟨v, ?_⟩, ?_, hwritten⟩
  · rw [hclosed]
    simp
  · rw [hv, List.append_assoc, hpending]
    rfl
  · simp [Mode.pending]

/-- A brace opens a group. -/
theorem group {name : String} {kind : CommandKind} {parameters : List Inline}
    (hbehind : r.Behind commands name kind parameters)
    (hwritten : (scan (u ++ ['\x7b'])).written.reverse = ({ r with
      mode := .text
      passage := {}
      groups := { offset := r.offset, name, kind, parameters, outer := r.passage } :: r.groups } :
        Reader).written) :
    Tracks (u ++ ['\x7b'])
      { mode := .text
        passage := {}
        groups := { offset := r.offset, name, kind, parameters, outer := r.passage } :: r.groups
        offset := r.offset + Char.utf8Size '\x7b' } := by
  have hopens := h.opens_iff.2 (by rcases hbehind with ⟨hm, -⟩ | ⟨hm⟩ <;> simp [hm, Mode.Takes])
  refine ⟨trivial, h.offset_step, ?_, ?_, ⟨u ++ ['\x7b'], by simp [Mode.pending]⟩, fun _ => ?_,
    hwritten⟩
  · simp [Scan.step, hopens, Group.braces, h.braces, h.offset, byteSize_reverse]
  · simp [Scan.step]
  · exact plain_concat (by decide) (by simp [not_isNameChar_open])

/-- A character of text. -/
theorem text (hc : ¬ r.mode.Takes c) (hs : r.settle commands = .ok s) (htext : s.ReadsText c next)
    (hwritten : (scan (u ++ [c])).written.reverse = next.written) :
    Tracks (u ++ [c]) { next with offset := r.offset + c.utf8Size } := by
  obtain ⟨hgroups, hbraces⟩ := groups_of_settle hs
  rw [← h.braces] at hbraces
  have hplain : isNameChar c → (u.reverse.dropWhile isNameChar).head? ≠ some '\\' := fun hname =>
    h.plain (by rcases hm : r.mode with _ | _ | _ | _ <;> simp_all [Mode.Takes, Mode.pending])
  have hopens : c = '\x7b' → ((scan u).closed || (scan u).endsInName) = false := by
    rintro rfl
    exact Bool.eq_false_iff.2 (mt h.opens_iff.1 hc)
  have hself : ∃ v, u ++ [c] = v ++ [] := ⟨_, (List.append_nil _).symm⟩
  cases htext with
  | backslash hc =>
    subst hc
    obtain ⟨hsame, hclosed⟩ := scan_of_plain (u := u) (c := '\\') (by decide) (by decide)
    refine ⟨trivial, h.offset_step, hsame.trans hbraces.symm, ?_, ⟨u, rfl⟩, ?_, hwritten⟩
    · rw [hclosed]
      simp
    · simp [Mode.pending]
  | @literal depth hc hdepth =>
    have hstep := scan_of_literal hbraces.symm hopens hdepth
    refine ⟨trivial, h.offset_step, hstep.1, ?_, hself, fun _ => plain_concat hc hplain, hwritten⟩
    rw [hstep.2]
    simp
  | @bar group outer hc hg hdepth =>
    subst hc
    obtain ⟨hsame, hclosed⟩ := scan_of_plain (u := u) (c := '|') (by decide) (by decide)
    have hmode := Reader.mode_of_settle hs
    refine ⟨by rw [hmode]; trivial, h.offset_step, ?_, ?_, by rw [hmode]; exact hself,
      fun _ => plain_concat (by decide) hplain, hwritten⟩
    · rw [hsame, ← hbraces, hg, Group.braces, Group.braces, hdepth]
    · rw [hclosed, hmode]
      simp
  | @close group outer hc hg hdepth =>
    subst hc
    rw [hg, Group.braces, hdepth] at hbraces
    refine ⟨by simp [Mode.IsBegun], h.offset_step, ?_, ?_, hself,
      fun _ => plain_concat (by decide) hplain, hwritten⟩
    · simp [Scan.step, ← hbraces]
    · simp [Scan.step, ← hbraces, Brace.offset?]

/-- **One character keeps the reader and the scan at one.** -/
theorem step (hreads : r.Reads commands c next) :
    Tracks (u ++ [c]) { next with offset := r.offset + c.utf8Size } := by
  have hwritten := h.written_step hreads
  have hbegun := hreads.isBegun h.begun
  cases hreads with
  | start hm hc => exact h.letter hc (by simp [hm, Mode.pending]) hbegun hwritten
  | letter hm hc => exact h.letter hc (by simp [hm, Mode.pending]) hbegun hwritten
  | group hbehind hc => subst hc; exact h.group hbehind hwritten
  | text hc hs htext => exact h.text hc hs htext hwritten

end

end Tracks

theorem tracks_of_run (h : u.foldlM (Reader.step commands) {} = .ok r) : Tracks u r :=
  Reader.run_induction (u := []) h .start Tracks.step

/-! ## What is written -/

/-- **The inlines of a text are written as the text**, with a bar for each two braces between
    groups of a command; so they are written as the text itself just if no group of a command
    follows another one. -/
theorem join_sources_of_parse (source : String) (inlines : List Inline)
    (h : parse commands source = .ok inlines) :
    String.join (Inline.sources inlines) =
        String.ofList (scan source.toList).written.reverse ∧
      (String.join (Inline.sources inlines) = source ↔ Unjoined source.toList) := by
  obtain ⟨r, hr, hwritten⟩ := written_of_parse h
  have hjoin : String.join (Inline.sources inlines) =
      String.ofList (scan source.toList).written.reverse := by
    rw [← String.toList_inj, String.toList_ofList, Inline.toList_join_sources, hwritten,
      (tracks_of_run hr).written]
  refine ⟨hjoin, ?_⟩
  rw [hjoin, ← String.toList_inj, String.toList_ofList, written_scan_eq_iff]

/-- Two groups become one; literal braces and bars stay. -/
theorem join_sources_of_parse_groups : ∃ inlines,
    parse .builtIn "\\lines\x7b\x7d\x7ba\x7bb|c\x7d\x7d| \\" = .ok inlines ∧
      String.join (Inline.sources inlines) = "\\lines\x7b|a\x7bb|c\x7d\x7d| \\" ∧
      ¬ Unjoined "\\lines\x7b\x7d\x7ba\x7bb|c\x7d\x7d| \\".toList := by
  have hread : (parse .builtIn "\\lines\x7b\x7d\x7ba\x7bb|c\x7d\x7d| \\").toOption.isSome := by
    decide +kernel
  rcases h : parse .builtIn "\\lines\x7b\x7d\x7ba\x7bb|c\x7d\x7d| \\" with e | inlines
  · rw [h] at hread
    cases hread
  obtain ⟨hjoin, hiff⟩ := join_sources_of_parse _ inlines h
  have hbar : String.ofList (scan "\\lines\x7b\x7d\x7ba\x7bb|c\x7d\x7d| \\".toList).written.reverse =
      "\\lines\x7b|a\x7bb|c\x7d\x7d| \\" := by
    decide +kernel
  rw [hjoin, hbar] at hiff
  exact ⟨inlines, rfl, hjoin.trans hbar, fun hu => absurd (hiff.2 hu) (by decide)⟩

/-! ## How reading ends -/

theorem names_append (hu : ∀ c ∈ u, isNameChar c) : names (u ++ v) = names v := by
  induction u with
  | nil => rfl
  | cons c u ih =>
    have hc : c ≠ '\\' := by
      rintro rfl
      simpa [not_isNameChar_backslash] using hu '\\' (by simp)
    rw [List.cons_append, names, if_neg hc, ih fun c hc => hu c (by simp [hc])]

/-- A name that has ended is the first one. -/
theorem names_name {letters : String} (h : IsName letters)
    (hv : ∀ c ∈ v.head?, isNameChar c = false) :
    names ('\\' :: letters.toList ++ v) = letters :: names v := by
  obtain ⟨hne, hletters⟩ := h
  have htake : (letters.toList ++ v).takeWhile isNameChar = letters.toList := by
    rw [List.takeWhile_append_of_pos hletters]
    rcases v with _ | ⟨c, v⟩
    · simp
    · rw [List.takeWhile_cons, hv c rfl]
      simp
  have hcons : letters.toList ≠ [] := fun hnil => hne (String.toList_inj.1 hnil)
  obtain ⟨c, cs, hc⟩ := List.exists_cons_of_ne_nil hcons
  rw [List.cons_append, names, if_pos rfl, htake, names_append hletters]
  simp only [hc]
  rw [← hc, String.ofList_toList]

/-- Names that are no commands. -/
def unknown? (commands : Commands) (names : List String) : Option String :=
  names.find? fun name => (commands.get? name).isNone

theorem unknown?_cons (letters : String) (names : List String) :
    unknown? commands (letters :: names) =
      if (commands.get? letters).isNone then some letters else unknown? commands names := by
  rw [unknown?, List.find?_cons]
  cases (commands.get? letters).isNone <;> rfl

/-- A name is a command, or there is an error. -/
theorem kind_cases (commands : Commands) (name : String) :
    (commands.get? name).isNone ∧
        commands.kind name = .error (.unknownCommand name (commands.closeNames name)) ∨
      ¬ (commands.get? name).isNone ∧ ∃ kind, commands.kind name = .ok kind := by
  rw [Commands.kind]
  rcases commands.get? name with _ | command <;> simp

namespace Reader

/-- The names that are to come, with the one that the reader is in the middle of. -/
def namesAhead (r : Reader) (v : List Char) : List String :=
  names (r.mode.pending ++ v)

/-- The end of the text ends at most one name. -/
theorem namesAhead_nil (hr : r.mode.IsBegun) :
    r.namesAhead [] = [] ∧ (∃ s, r.settle commands = .ok s) ∨
      ∃ letters, r.mode = .name letters ∧ r.namesAhead [] = [letters] := by
  rw [namesAhead]
  rcases hm : r.mode with _ | _ | letters | _ <;> rw [hm] at hr
  · exact Or.inl ⟨rfl, _, settle_of_text hm⟩
  · exact Or.inl ⟨rfl, _, settle_eq_ok.2 (Or.inr (Or.inl ⟨hm, rfl⟩))⟩
  · exact Or.inr ⟨letters, rfl, names_name hr (by simp)⟩
  · exact Or.inl ⟨rfl, _, (Behind.command hm).settle⟩

/-- What ends with the text before a character is a name that is known, if it is one. -/
theorem namesAhead_of_settle (hr : r.mode.IsBegun) (hc : ¬ r.mode.Takes c) :
    r.namesAhead (c :: v) = names (c :: v) ∨
      ∃ letters, r.mode = .name letters ∧ r.namesAhead (c :: v) = letters :: names (c :: v) := by
  rw [namesAhead]
  rcases hm : r.mode with _ | _ | letters | _ <;> rw [hm] at hr hc
  · exact Or.inl rfl
  · left
    have hno : isNameChar c = false := by simpa [Mode.Takes] using hc
    rw [Mode.pending, List.singleton_append, names, if_pos rfl, List.takeWhile_cons, hno]
    rfl
  · refine Or.inr ⟨letters, rfl, names_name hr ?_⟩
    rintro c' ⟨⟩
    simpa [Mode.Takes] using fun h => hc (Or.inl h)
  · exact Or.inl rfl

theorem ReadsText.names_eq (h : s.ReadsText c next) (hs : s.mode = .text) :
    names (c :: v) = next.namesAhead v := by
  have hother : c ≠ '\\' → names (c :: v) = names v := fun hc => by rw [names, if_neg hc]
  cases h with
  | backslash hc => rw [hc]; rfl
  | literal hc => exact hother hc
  | bar hc => rw [hother (by rw [hc]; decide), namesAhead, hs]; rfl
  | close hc => rw [hother (by rw [hc]; decide)]; rfl

/-- Reading a character ends at most one name, and that is known. -/
theorem Reads.namesAhead (h : r.Reads commands c next) (hr : r.mode.IsBegun) :
    r.namesAhead (c :: v) = next.namesAhead v ∨
      ∃ letters kind, commands.kind letters = .ok kind ∧
        r.namesAhead (c :: v) = letters :: next.namesAhead v := by
  have hopen : names ('\x7b' :: v) = names v := rfl
  cases h with
  | start hm => left; simp [Reader.namesAhead, hm, Mode.pending]
  | letter hm => left; simp [Reader.namesAhead, hm, Mode.pending]
  | group hbehind hc =>
    subst hc
    cases hbehind with
    | name hm hk =>
      refine Or.inr ⟨_, _, hk, ?_⟩
      rw [hm] at hr
      rw [Reader.namesAhead, hm, Mode.pending,
        names_name hr (by simpa using not_isNameChar_open), hopen]
      rfl
    | command hm =>
      rw [Reader.namesAhead, hm]
      exact Or.inl hopen
  | text hc hs htext =>
    rw [← htext.names_eq (mode_of_settle hs)]
    rcases namesAhead_of_settle hr hc with he | ⟨letters, hm, he⟩
    · exact Or.inl he
    · rcases settle_eq_ok.1 hs with ⟨hm', -⟩ | ⟨hm', -⟩ | ⟨_, _, _, hbehind, -⟩
      · cases hm'.symm.trans hm
      · cases hm'.symm.trans hm
      · cases hbehind with
        | name hm' hk => cases hm'.symm.trans hm; exact Or.inr ⟨_, _, hk, he⟩
        | command hm' => cases hm'.symm.trans hm

/-- Reading goes on to the end, or to the end of the first unknown name. -/
theorem run_outcome (hr : r.mode.IsBegun) (v : List Char) :
    match unknown? commands (r.namesAhead v) with
    | some name => v.foldlM (step commands) r >>= settle commands =
        .error (.unknownCommand name (commands.closeNames name))
    | none => ∃ r' s, v.foldlM (step commands) r = .ok r' ∧ r'.settle commands = .ok s := by
  induction v generalizing r with
  | nil =>
    rcases namesAhead_nil hr with ⟨he, s, hs⟩ | ⟨letters, hm, he⟩
    · rw [he]
      exact ⟨r, s, rfl, hs⟩
    rw [he, unknown?_cons]
    rcases kind_cases commands letters with ⟨hnone, hk⟩ | ⟨hsome, kind, hk⟩
    · rw [if_pos hnone]
      simp [settle, hm, hk, bind, Except.bind, pure, Except.pure]
    · rw [if_neg hsome]
      exact ⟨r, _, rfl, (Behind.name hm hk).settle⟩
  | cons c v ih =>
    rcases hs : r.step commands c with cause | r'
    · obtain ⟨letters, hm, hc, hk⟩ := step_eq_error hs
      rw [hm] at hr
      rw [namesAhead, hm, Mode.pending, names_name hr (by simpa using hc), unknown?_cons]
      rcases kind_cases commands letters with ⟨hnone, hk'⟩ | ⟨-, kind, hk'⟩
      · cases hk.symm.trans hk'
        rw [if_pos hnone, List.foldlM_cons, hs]
        rfl
      · cases hk.symm.trans hk'
    · rw [foldlM_cons_of_step hs]
      obtain ⟨next, hreads, rfl⟩ := reads_of_step hs
      have hnext := ih (r := { next with offset := r.offset + c.utf8Size }) (hreads.isBegun hr)
      rcases hreads.namesAhead (v := v) hr with he | ⟨letters, kind, hk, he⟩
      · rw [he]
        exact hnext
      · rw [he, unknown?_cons, if_neg]
        · exact hnext
        · rcases kind_cases commands letters with ⟨-, hk'⟩ | ⟨hsome, -⟩
          · cases hk.symm.trans hk'
          · exact hsome

end Reader

/-- The innermost open group is the first one of the reader. -/
theorem openGroup?_of_tracks (h : Tracks u r) (hs : r.settle commands = .ok s) :
    (scan u).openGroup? = s.groups.head?.map Group.offset := by
  rw [Scan.openGroup?, h.braces, ← (groups_of_settle hs).2]
  rcases s.groups with _ | ⟨group, outer⟩
  · rfl
  · rw [Group.braces, List.findSome?_append, List.findSome?_replicate, List.findSome?_cons]
    simp [Brace.offset?]

/-- **How the reading of a text ends.**  The first name that is no command is an error.  If there
    is none, the brace of the innermost parameter group that is still open is one.  Otherwise the
    text is read. -/
theorem parse_outcome (commands : Commands) (source : String) :
    match unknown? commands (names source.toList), (scan source.toList).openGroup? with
    | some name, _ =>
      parse commands source = .error (.unknownCommand name (commands.closeNames name))
    | none, some offset =>
      ∃ message, parse commands source = .error (.parse source offset message)
    | none, none => ∃ inlines, parse commands source = .ok inlines := by
  have hrun := @Reader.run_outcome commands {} trivial source.toList
  rw [Reader.namesAhead, Mode.pending, List.nil_append] at hrun
  generalize unknown? commands (names source.toList) = unknown at hrun ⊢
  rcases unknown with _ | name
  · obtain ⟨r, s, hr, hs⟩ := hrun
    have hgroup := openGroup?_of_tracks (tracks_of_run hr) hs
    rcases hg : s.groups with _ | ⟨group, outer⟩ <;> rw [hg] at hgroup <;> rw [hgroup]
    · exact ⟨_, parse_eq_ok.2 ⟨r, s, hr, hs, hg, rfl⟩⟩
    · exact ⟨_, parse_eq_error hr hs hg⟩
  · dsimp only at hrun ⊢
    rcases hr : source.toList.foldlM (Reader.step commands) {} with e | r <;> rw [hr] at hrun
    · simpa [parse, hr, bind, Except.bind] using hrun
    · have hs : r.settle commands = .error _ := hrun
      simp [parse, hr, Reader.finish, hs, bind, Except.bind]

example : (scan "\\footnote\x7ba\x7b\\def\x7bb\x7d".toList).openGroup? = some 9 := by
  decide +kernel

end Rubric.Markup
