/-
  Rubric — writing back what the reader has read.

  * `Inline.written l`: the characters of the markup of inlines;
  * `Reader.written`: those of all that the reader holds: the open groups, the
    passage, and the name or the command that it is in the middle of;
  * **`Reader.Reads.written`**: a character that is read is written behind the
    others, unless it opens one more group of a command; a bar stands in place
    of the two braces then;
  * `written_of_parse`: what is written for the inlines of a text.
-/
import Rubric.Inline.Source
import Rubric.Proofs.Reader

namespace Rubric

open Text

/-! ## Markup -/

namespace Inline

variable {name : String} {kind : CommandKind} {parameters : List Inline} {own : Tags}
  {evaluation : Evaluation}

/-- The characters of the markup of inlines. -/
def written (l : List Inline) : List Char :=
  l.flatMap fun i => i.source.toList

@[simp] theorem written_nil : written [] = [] := rfl

@[simp] theorem written_cons (i : Inline) (l : List Inline) :
    written (i :: l) = i.source.toList ++ written l := rfl

@[simp] theorem written_append (l l' : List Inline) :
    written (l ++ l') = written l ++ written l' :=
  List.flatMap_append

theorem sources_eq_map : ∀ l : List Inline, sources l = l.map source
  | [] => rfl
  | i :: l => by rw [sources, sources_eq_map l, List.map_cons]

theorem toList_join_sources (l : List Inline) : (String.join (sources l)).toList = written l := by
  rw [String.toList_join, sources_eq_map, List.flatMap_map, written]

@[simp] theorem source_run (text : String) (own : Tags) : (run text own).source = text := by
  rw [source]

@[simp] theorem toList_source_span (l : List Inline) (own : Tags) :
    (span l own).source.toList = written l := by
  rw [source, toList_join_sources]

/-- The characters of parameters, with a bar behind each. -/
def barred (parameters : List Inline) : List Char :=
  parameters.flatMap fun p => p.source.toList ++ ['|']

@[simp] theorem barred_nil : barred [] = [] := rfl

@[simp] theorem barred_cons (p : Inline) (parameters : List Inline) :
    barred (p :: parameters) = p.source.toList ++ '|' :: barred parameters := by
  simp [barred]

@[simp] theorem barred_append (ps qs : List Inline) : barred (ps ++ qs) = barred ps ++ barred qs :=
  List.flatMap_append

theorem toList_source_command (name : String) (kind : CommandKind) (parameters : List Inline)
    (own : Tags) (evaluation : Evaluation) :
    (command name kind parameters own evaluation).source.toList =
      '\\' :: name.toList ++ (group (sources parameters)).toList := by
  rw [source]
  simp

@[simp] theorem toList_source_command_nil :
    (command name kind [] own evaluation).source.toList = '\\' :: name.toList := by
  rw [toList_source_command, sources, group]
  simp

/-- All parameters but the last have a bar behind them. -/
@[simp] theorem toList_source_command_concat (p : Inline) :
    (command name kind (parameters ++ [p]) own evaluation).source.toList =
      '\\' :: name.toList ++ '{' :: barred parameters ++ p.source.toList ++ ['}'] := by
  have hbars : ∀ parameters : List Inline,
      List.intercalate ['|'] ((parameters ++ [p]).map fun q => q.source.toList) =
        barred parameters ++ p.source.toList := by
    intro parameters
    induction parameters with
    | nil => simp
    | cons q qs ih =>
      obtain ⟨q', qs', hqs⟩ : ∃ q' qs', qs ++ [p] = q' :: qs' :=
        List.exists_cons_of_ne_nil (by simp)
      rw [hqs, List.map_cons] at ih
      rw [List.cons_append, hqs, List.map_cons, List.map_cons, List.intercalate_cons_cons, ih]
      simp
  have hgroup : (group (sources (parameters ++ [p]))).toList =
      '{' :: (List.intercalate ['|'] ((parameters ++ [p]).map fun q => q.source.toList) ++
        ['}']) := by
    rw [sources_eq_map]
    generalize hl : (parameters ++ [p]).map source = l
    rcases l with _ | ⟨s, l⟩
    · simp at hl
    · rw [group]
      · rw [← hl]
        simp [String.toList_intercalate, Function.comp_def]
      · simp
  rw [toList_source_command, hgroup, hbars]
  simp

end Inline

namespace Markup

variable {commands : Commands} {r s next : Reader} {c : Char}

open Inline

/-- The inline of a parameter is written like the inlines in it. -/
theorem toList_source_parameter (l : List Inline) : (parameter l).source.toList = written l := by
  unfold parameter
  split
  · simp [Inline.text]
  · simp
  · simp

/-! ## States -/

/-- The characters of a passage. -/
def Passage.written (p : Passage) : List Char :=
  Inline.written p.inlines.toList ++ p.literal.toList

theorem Passage.written_close (p : Passage) : Inline.written p.close = p.written := by
  unfold close inlinesWithLiteral written
  split
  · rename_i hempty
    simp [String.isEmpty_iff.1 hempty]
  · simp [Inline.text]

@[simp] theorem Passage.written_empty : ({} : Passage).written = [] := rfl

@[simp] theorem Passage.written_push (p : Passage) (c : Char) :
    (p.push c).written = p.written ++ [c] := by
  simp [written, push]

@[simp] theorem Passage.written_append (p : Passage) (i : Inline) :
    (p.append i).written = p.written ++ i.source.toList := by
  rw [← p.written_close]
  simp [written, append, close]

/-- The characters of the open groups, up to the passage in the innermost one. -/
def Group.writtenAll : List Group → List Char
  | [] => []
  | group :: outer =>
    writtenAll outer ++ group.outer.written ++ '\\' :: group.name.toList ++
      '{' :: barred group.parameters

/-- The characters of what the reader is in the middle of. -/
def Mode.written : Mode → List Char
  | .text => []
  | .backslash => ['\\']
  | .name letters => '\\' :: letters.toList
  | .command letters kind parameters =>
    (Inline.command letters kind parameters .unset .pending).source.toList

/-- The characters of all that the reader holds. -/
def Reader.written (r : Reader) : List Char :=
  Group.writtenAll r.groups ++ r.passage.written ++ r.mode.written

namespace Reader

theorem written_settle (h : r.settle commands = .ok s) : s.written = r.written := by
  rcases settle_eq_ok.1 h with ⟨-, rfl⟩ | ⟨hm, rfl⟩ | ⟨name, kind, parameters, hbehind, rfl⟩
  · rfl
  · simp [written, literal, hm, Mode.written]
  · rcases hbehind with ⟨hm, -⟩ | ⟨hm⟩ <;> simp [written, endCommand, hm, Mode.written]

/-- The character opens one more group of a command. -/
def Joins (r : Reader) (c : Char) : Prop :=
  c = '\x7b' ∧ ∃ name kind parameters, r.mode = .command name kind parameters

theorem ReadsText.written (h : s.ReadsText c next) (hs : s.mode = .text) :
    next.written = s.written ++ [c] := by
  cases h with
  | backslash hc => simp [Reader.written, hs, Mode.written, hc]
  | literal =>
    have hpush : ∀ depth, ({ s.passage.push c with depth } : Passage).written =
        (s.passage.push c).written := fun _ => rfl
    simp [Reader.written, hs, Mode.written, hpush]
  | bar hc hg =>
    simp [Reader.written, hs, Mode.written, hc, hg, Group.writtenAll, toList_source_parameter,
      Passage.written_close]
  | close hc hg =>
    simp [Reader.written, hs, Mode.written, hc, hg, Group.writtenAll, toList_source_parameter,
      Passage.written_close]

/-- **A character is written behind those before it**, but for one more brace of a command: it
    gives a bar together with the one before. -/
theorem Reads.written (h : r.Reads commands c next) (hr : r.mode.IsBegun) :
    (¬ r.Joins c → next.written = r.written ++ [c]) ∧
      (r.Joins c → ∃ w, r.written = w ++ ['\x7d'] ∧ next.written = w ++ ['|']) := by
  cases h with
  | start hm => simp [Joins, Reader.written, hm, Mode.written]
  | letter hm => simp [Joins, Reader.written, hm, Mode.written]
  | @group name kind _ hbehind hc =>
    cases hbehind with
    | name hm => simp [Joins, Reader.written, hm, Mode.written, Group.writtenAll, hc]
    | command hm =>
      rw [hm] at hr
      obtain ⟨parameters, p, rfl⟩ := (List.eq_nil_or_concat _).resolve_left hr
      refine ⟨fun hnot => (hnot ⟨hc, _, _, _, hm⟩).elim, fun _ => ?_⟩
      refine ⟨Group.writtenAll r.groups ++ r.passage.written ++
        '\\' :: (name.toList ++ '{' :: (barred parameters ++ p.source.toList)), ?_, ?_⟩ <;>
        simp [Reader.written, hm, Mode.written, Group.writtenAll]
  | text hc hs htext =>
    have hnot : ¬ r.Joins c := by
      rintro ⟨rfl, name, kind, parameters, hm⟩
      exact hc (by rw [hm]; rfl)
    rw [htext.written (mode_of_settle hs), written_settle hs]
    simp [hnot]

end Reader

/-- What is written for the inlines of a text is what is written for the state behind it. -/
theorem written_of_parse {source : String} {inlines : List Inline}
    (h : parse commands source = .ok inlines) : ∃ r,
      source.toList.foldlM (Reader.step commands) {} = .ok r ∧
        Inline.written inlines = r.written := by
  obtain ⟨r, s, hr, hs, hg, rfl⟩ := parse_eq_ok.1 h
  refine ⟨r, hr, ?_⟩
  rw [Passage.written_close, ← Reader.written_settle hs, Reader.written, hg,
    Reader.mode_of_settle hs]
  simp [Group.writtenAll, Mode.written]

end Markup

end Rubric
