/-
  Rubric — the inlines that markup is read as.

  Reading and writing are inverse on canonical inlines: nothing in them is
  executed or tagged, and no character would be read as part of the inline before
  it.  Spans stand as parameters only; the reader counts the braces in those.

  * `IsCanonical`, with `IsPiece` for the inlines of a sequence and `IsParameter`
    for those of a command;
  * `Reader.IsCanonical`: all that the reader holds is canonical, and stays so
    with the next character; **`isCanonical_of_parse`**;
  * `Reader.Reaches`: where the markup of canonical inlines leads;
    **`parse_of_isCanonical`**;
  * **`parse_inverse`**: both together.
-/
import Mathlib.Data.List.Chain
import Rubric.Proofs.Writing

namespace Rubric

open Text Markup

/-! ## Canonical inlines -/

namespace Inline

/-- The inline is a command. -/
def IsCommand : Inline → Prop
  | command .. => True
  | run .. | span .. => False

/-- The literal characters of an inline. -/
def literal : Inline → List Char
  | run text _ => text.toList
  | span .. | command .. => []

/-- The second inline may stand directly behind the first one. -/
def MayPrecede : Inline → Inline → Prop
  | run .., run .. => False
  | command _ _ parameters _ _, run text _ =>
    ∀ c ∈ text.toList.head?, c ≠ '{' ∧ (parameters = [] → isNameChar c = false)
  | _, _ => True

end Inline

namespace Markup

open Inline

variable {commands : Commands}

/-- No name stands in literal text. -/
def IsQuiet (cs : List Char) : Prop :=
  cs.IsChain fun a b => a = '\\' → isNameChar b = false

/-- The literal braces of the inlines are balanced, and every literal bar stands in some. -/
def IsBalanced (l : List Inline) : Prop :=
  (l.flatMap literal).foldlM literalDepth 0 = some 0

mutual

/-- A run or a command as it stands in a sequence. -/
inductive IsPiece (commands : Commands) : Inline → Prop
  | run {text : String} : text ≠ "" → IsQuiet text.toList → IsPiece commands (.run text .unset)
  | command {name : String} {kind : CommandKind} {parameters : List Inline} :
      IsName name → commands.kind name = .ok kind →
      (∀ p ∈ parameters, IsParameter commands p) →
      IsPiece commands (.command name kind parameters .unset .pending)

/-- A parameter of a command: empty, a command alone, or anything else in a span. -/
inductive IsParameter (commands : Commands) : Inline → Prop
  | empty : IsParameter commands (.run "" .unset)
  | command {i : Inline} : i.IsCommand → IsPiece commands i → IsParameter commands i
  | span {l : List Inline} : IsCanonical commands l → l ≠ [] →
      (∀ i, l = [i] → ¬ i.IsCommand) → IsBalanced l → IsParameter commands (.span l .unset)

/-- A sequence of inlines that would be taken apart in no other way. -/
inductive IsCanonical (commands : Commands) : List Inline → Prop
  | intro {l : List Inline} : (∀ i ∈ l, IsPiece commands i) → l.IsChain MayPrecede →
      IsCanonical commands l

end

theorem IsCanonical.isPiece {l : List Inline} (h : IsCanonical commands l) :
    ∀ i ∈ l, IsPiece commands i := by
  cases h; assumption

theorem IsCanonical.isChain {l : List Inline} (h : IsCanonical commands l) :
    l.IsChain MayPrecede := by
  cases h; assumption

theorem isCanonical_nil : IsCanonical commands [] :=
  .intro (by simp) .nil

/-- One more inline behind a sequence. -/
theorem isCanonical_concat {l : List Inline} {i : Inline} :
    IsCanonical commands (l ++ [i]) ↔
      IsCanonical commands l ∧ IsPiece commands i ∧ ∀ j ∈ l.getLast?, MayPrecede j i := by
  have hchain : (l ++ [i]).IsChain MayPrecede ↔
      l.IsChain MayPrecede ∧ ∀ j ∈ l.getLast?, MayPrecede j i := by
    simp [List.isChain_append]
  constructor
  · rintro ⟨hpieces, hl⟩
    obtain ⟨hl, hlast⟩ := hchain.1 hl
    exact ⟨.intro (fun j hj => hpieces j (by simp [hj])) hl, hpieces i (by simp), hlast⟩
  · rintro ⟨⟨hpieces, hl⟩, hi, hlast⟩
    refine .intro (fun j hj => ?_) (hchain.2 ⟨hl, hlast⟩)
    rcases List.mem_append.1 hj with hj | hj
    · exact hpieces j hj
    · exact List.mem_singleton.1 hj ▸ hi

/-- A command may stand behind anything. -/
theorem MayPrecede.command {i j : Inline} (hj : j.IsCommand) : MayPrecede i j := by
  rcases j with _ | _ | _
  · exact hj.elim
  · exact hj.elim
  · cases i <;> trivial

theorem isQuiet_singleton (c : Char) : IsQuiet [c] :=
  .singleton c

theorem isQuiet_concat {cs : List Char} {a b : Char} :
    IsQuiet (cs ++ [a] ++ [b]) ↔ IsQuiet (cs ++ [a]) ∧ (a = '\\' → isNameChar b = false) := by
  simp [IsQuiet]

/-- What ends as a parameter is one. -/
theorem isParameter_parameter {l : List Inline} (h : IsCanonical commands l) (hl : IsBalanced l) :
    IsParameter commands (parameter l) := by
  unfold parameter
  split
  · exact .empty
  · have hi := h.isPiece _ (List.mem_singleton_self _)
    cases hi with
    | command => exact .command trivial (h.isPiece _ (List.mem_singleton_self _))
  · rename_i hempty hlone
    refine .span h hempty (fun i hi hcommand => ?_) hl
    rcases i with _ | _ | ⟨name, kind, parameters, own, evaluation⟩
    · exact hcommand
    · exact hcommand
    · exact hlone _ _ _ _ _ hi

theorem parameter_eq_span {l : List Inline} (hne : l ≠ []) (hlone : ∀ i, l = [i] → ¬ i.IsCommand) :
    parameter l = .span l .unset := by
  unfold parameter
  split
  · exact (hne rfl).elim
  · exact (hlone _ rfl trivial).elim
  · rfl

/-! ## What is read is canonical -/

/-- The literal characters of a passage. -/
def Passage.literals (p : Passage) : List Char :=
  p.inlines.toList.flatMap Inline.literal ++ p.literal.toList

theorem Passage.literals_close (p : Passage) : p.close.flatMap Inline.literal = p.literals := by
  unfold close inlinesWithLiteral literals
  split
  · rename_i hempty
    simp [String.isEmpty_iff.1 hempty]
  · simp [Inline.text, Inline.literal]

theorem Passage.literals_append (p : Passage) {i : Inline} (hi : i.IsCommand) :
    (p.append i).literals = p.literals := by
  rcases i with _ | _ | _
  · exact hi.elim
  · exact hi.elim
  · rw [← p.literals_close]
    simp [literals, append, close, Inline.literal]

theorem Passage.close_append (p : Passage) (i : Inline) : (p.append i).close = p.close ++ [i] := by
  simp [close, append, inlinesWithLiteral]

theorem Passage.close_push (p : Passage) (c : Char) :
    (p.push c).close = p.inlines.toList ++ [.run (p.literal.push c) .unset] := by
  have hpush : (p.literal.push c).isEmpty = false := by
    rw [← Bool.not_eq_true, String.isEmpty_iff]
    intro h
    simpa using congrArg String.toList h
  simp [close, push, inlinesWithLiteral, hpush, Inline.text]

/-- A literal character may be read behind one. -/
theorem Passage.isCanonical_push_push {p : Passage} {a b : Char}
    (h : IsCanonical commands (p.push a).close) (hab : a = '\\' → isNameChar b = false) :
    IsCanonical commands ((p.push a).push b).close := by
  rw [close_push] at h ⊢
  obtain ⟨hinlines, hrun, hlast⟩ := isCanonical_concat.1 h
  refine isCanonical_concat.2 ⟨hinlines, ?_, fun j hj => ?_⟩
  · cases hrun with
    | run _ hquiet =>
      refine .run (fun hempty => ?_) ?_
      · simpa using congrArg String.toList hempty
      · rw [push, String.toList_push, String.toList_push]
        rw [String.toList_push] at hquiet
        exact isQuiet_concat.2 ⟨hquiet, hab⟩
  · -- the first character of the run is the one it was
    have hj := hlast j hj
    have hhead : ((p.push a).literal.push b).toList.head? = (p.literal.push a).toList.head? := by
      simp [push]
    cases j with
    | run => exact hj
    | span => exact hj
    | command => rw [MayPrecede, hhead]; exact hj

theorem isPiece_singleton (c : Char) : IsPiece commands (.run ("".push c) .unset) :=
  .run (by simp [← String.toList_inj]) (by simpa using isQuiet_singleton c)

/-- Any literal character may be the first one. -/
theorem Passage.isCanonical_empty_push (c : Char) :
    IsCanonical commands (({} : Passage).push c).close := by
  rw [close_push]
  exact isCanonical_concat.2 ⟨isCanonical_nil, isPiece_singleton c, by simp⟩

/-- A literal character may be read behind a command. -/
theorem Passage.isCanonical_append_push {p : Passage} {i : Inline} {c : Char}
    (h : IsCanonical commands (p.append i).close) (hc : MayPrecede i (.run ("".push c) .unset)) :
    IsCanonical commands ((p.append i).push c).close := by
  rw [close_append] at h
  have hinlines : (p.append i).inlines.toList = p.close ++ [i] := by simp [append, close]
  rw [close_push, hinlines]
  refine isCanonical_concat.2 ⟨h, isPiece_singleton c, fun j hj => ?_⟩
  rw [List.getLast?_concat, Option.mem_some_iff] at hj
  exact hj ▸ hc

/-- Inside a parameter, the depth is that of the literal braces. -/
def Passage.Counts (p : Passage) (groups : List Group) : Prop :=
  groups ≠ [] → p.literals.foldlM literalDepth 0 = some p.depth

theorem Passage.counts_empty (groups : List Group) : ({} : Passage).Counts groups :=
  fun _ => rfl

/-- What a literal character does to the braces that are counted. -/
theorem Passage.Counts.push {p : Passage} {groups : List Group} {c : Char} {depth : Nat}
    (h : p.Counts groups)
    (hdepth : groups = [] ∧ depth = p.depth ∨
      groups ≠ [] ∧ literalDepth p.depth c = some depth) :
    ({ p.push c with depth } : Passage).Counts groups := by
  intro hne
  have hliterals : ({ p.push c with depth } : Passage).literals = p.literals ++ [c] := by
    simp [literals, Passage.push]
  rcases hdepth with ⟨hempty, -⟩ | ⟨-, hdepth⟩
  · exact (hne hempty).elim
  · rw [hliterals, List.foldlM_append, h hne]
    simp [hdepth]

theorem Passage.Counts.append {p : Passage} {groups : List Group} {i : Inline}
    (h : p.Counts groups) (hi : i.IsCommand) : (p.append i).Counts groups := by
  intro hne
  rw [literals_append p hi]
  exact h hne

/-- What is read of a command in front of an open group, and of the passages around it. -/
def Group.AllCanonical (commands : Commands) : List Group → Prop
  | [] => True
  | group :: outer =>
    IsPiece commands (.command group.name group.kind group.parameters .unset .pending) ∧
      IsCanonical commands group.outer.close ∧ group.outer.Counts outer ∧
      AllCanonical commands outer

/-- What the reader is in the middle of may stand behind the passage. -/
def Mode.Fits (commands : Commands) (p : Passage) : Mode → Prop
  | .text => ∀ c, IsCanonical commands (p.push c).close
  | .backslash => IsCanonical commands (p.push '\\').close
  | .name _ => True
  | .command letters kind parameters =>
    IsPiece commands (.command letters kind parameters .unset .pending)

namespace Reader

variable {r s next : Reader} {c : Char} {name : String} {kind : CommandKind}
  {parameters : List Inline}

/-- All that the reader holds is canonical. -/
structure IsCanonical (commands : Commands) (r : Reader) : Prop where
  begun : r.mode.IsBegun
  fits : r.mode.Fits commands r.passage
  passage : Markup.IsCanonical commands r.passage.close
  counts : r.passage.Counts r.groups
  groups : Group.AllCanonical commands r.groups

/-- The command that the reader stands behind. -/
theorem IsCanonical.isPiece (h : r.IsCanonical commands)
    (hbehind : r.Behind commands name kind parameters) :
    IsPiece commands (.command name kind parameters .unset .pending) := by
  have hbegun := h.begun
  have hfits := h.fits
  cases hbehind with
  | name hm hk =>
    rw [hm] at hbegun
    exact .command hbegun hk (by simp)
  | command hm =>
    rw [hm] at hfits
    exact hfits

/-- What has ended is canonical, also with a character behind it that goes on with nothing. -/
theorem IsCanonical.settle (h : r.IsCanonical commands) (hs : r.settle commands = .ok s) :
    s.groups = r.groups ∧ Markup.IsCanonical commands s.passage.close ∧
      s.passage.Counts s.groups ∧
      ∀ c, ¬ r.mode.Takes c → Markup.IsCanonical commands (s.passage.push c).close := by
  have hfits := h.fits
  rcases settle_eq_ok.1 hs with ⟨hm, rfl⟩ | ⟨hm, rfl⟩ | ⟨name, kind, parameters, hbehind, rfl⟩
  · rw [hm] at hfits
    exact ⟨rfl, h.passage, h.counts, fun c _ => hfits c⟩
  · rw [hm] at hfits
    have hdepth : literalDepth r.passage.depth '\\' = some r.passage.depth := by
      simp [literalDepth]
    refine ⟨rfl, hfits, fun hne => h.counts.push (Or.inr ⟨hne, hdepth⟩) hne, fun c hc => ?_⟩
    exact Passage.isCanonical_push_push hfits fun _ => by simpa [hm, Mode.Takes] using hc
  · have hpiece := h.isPiece hbehind
    have hclose :
        Markup.IsCanonical commands (r.endCommand name kind parameters).passage.close := by
      rw [endCommand, Passage.close_append]
      exact isCanonical_concat.2 ⟨h.passage, hpiece, fun j _ => MayPrecede.command trivial⟩
    refine ⟨rfl, hclose, h.counts.append trivial, fun c hc => ?_⟩
    refine Passage.isCanonical_append_push hclose fun c' hc' => ?_
    obtain rfl : c = c' := by simpa using hc'
    cases hbehind with
    | name hm =>
      rw [hm, Mode.Takes, not_or] at hc
      exact ⟨hc.2, fun _ => by simpa using hc.1⟩
    | command hm =>
      have hbegun := h.begun
      rw [hm] at hc hbegun
      exact ⟨hc, fun hnil => (hbegun hnil).elim⟩

/-- A parameter that has ended. -/
theorem isPiece_parameter {group : Group} {l : List Inline}
    (h : IsPiece commands (.command group.name group.kind group.parameters .unset .pending))
    (hl : IsParameter commands (parameter l)) :
    IsPiece commands (.command group.name group.kind (group.parameters ++ [parameter l])
      .unset .pending) := by
  cases h with
  | command hname hkind hparameters =>
    refine .command hname hkind fun p hp => ?_
    rcases List.mem_append.1 hp with hp | hp
    · exact hparameters p hp
    · exact List.mem_singleton.1 hp ▸ hl

/-- **What is read stays canonical with each character.** -/
theorem Reads.isCanonical (h : r.Reads commands c next) (hr : r.IsCanonical commands) :
    next.IsCanonical commands := by
  have hbegun := h.isBegun hr.begun
  cases h with
  | start => exact ⟨hbegun, trivial, hr.passage, hr.counts, hr.groups⟩
  | letter => exact ⟨hbegun, trivial, hr.passage, hr.counts, hr.groups⟩
  | group hbehind =>
    exact ⟨hbegun, Passage.isCanonical_empty_push, isCanonical_nil, Passage.counts_empty _,
      hr.isPiece hbehind, hr.passage, hr.counts, hr.groups⟩
  | @text s _ hc hs htext =>
    obtain ⟨hgroups, hpassage, hcounts, hpush⟩ := hr.settle hs
    have hall : Group.AllCanonical commands s.groups := hgroups ▸ hr.groups
    -- a passage without open literal braces may end as a parameter
    have hparameter : s.groups ≠ [] → s.passage.depth = 0 →
        IsParameter commands (parameter s.passage.close) := by
      intro hne hdepth
      refine isParameter_parameter hpassage ?_
      rw [IsBalanced, Passage.literals_close, hcounts hne, hdepth]
    cases htext with
    | backslash hback =>
      subst hback
      exact ⟨hbegun, hpush _ hc, hpassage, hcounts, hall⟩
    | literal hback hdepth =>
      exact ⟨hbegun, fun c' => Passage.isCanonical_push_push (hpush c hc) fun he => (hback he).elim,
        hpush c hc, hcounts.push hdepth, hall⟩
    | bar _ hg hdepth =>
      rw [hg] at hall hparameter
      obtain ⟨hpiece, houter⟩ := hall
      refine ⟨hbegun, ?_, isCanonical_nil, Passage.counts_empty _,
        isPiece_parameter hpiece (hparameter (by simp) hdepth), houter⟩
      rw [mode_of_settle hs]
      exact Passage.isCanonical_empty_push
    | close _ hg hdepth =>
      rw [hg] at hall hparameter
      obtain ⟨hpiece, houter, houterCounts, hrest⟩ := hall
      exact ⟨hbegun, isPiece_parameter hpiece (hparameter (by simp) hdepth), houter, houterCounts,
        hrest⟩

end Reader

/-- **The inlines of a text are canonical.** -/
theorem isCanonical_of_parse {source : String} {inlines : List Inline}
    (h : parse commands source = .ok inlines) : IsCanonical commands inlines := by
  obtain ⟨r, s, hr, hs, -, rfl⟩ := parse_eq_ok.1 h
  have hstart : ({} : Reader).IsCanonical commands :=
    ⟨trivial, Passage.isCanonical_empty_push, isCanonical_nil, Passage.counts_empty _, trivial⟩
  have hend := Reader.run_induction (I := fun _ r => r.IsCanonical commands) (u := []) hr hstart
    fun hr hreads =>
      have h := hreads.isCanonical hr
      ⟨h.begun, h.fits, h.passage, h.counts, h.groups⟩
  exact (hend.settle hs).2.1

/-! ## What is canonical is read -/

theorem Mode.not_takes_backslash (mode : Mode) : ¬ mode.Takes '\\' := by
  cases mode <;> simp [Takes, not_isNameChar_backslash]

theorem Mode.not_takes_bar (mode : Mode) : ¬ mode.Takes '|' := by
  cases mode <;> simp [Takes, not_isNameChar_bar]

theorem Mode.not_takes_close (mode : Mode) : ¬ mode.Takes '\x7d' := by
  cases mode <;> simp [Takes, not_isNameChar_close]

/-- The depth of literal braces behind literal characters; at the top they are not counted. -/
def Deepens (groups : List Group) (depth : Nat) (cs : List Char) (depth' : Nat) : Prop :=
  groups = [] ∧ depth' = depth ∨ groups ≠ [] ∧ cs.foldlM literalDepth depth = some depth'

theorem deepens_nil {groups : List Group} {depth depth' : Nat} :
    Deepens groups depth [] depth' ↔ depth' = depth := by
  by_cases h : groups = [] <;> simp [Deepens, h, eq_comm]

theorem deepens_append {groups : List Group} {depth depth'' : Nat} {cs cs' : List Char} :
    Deepens groups depth (cs ++ cs') depth'' ↔
      ∃ depth', Deepens groups depth cs depth' ∧ Deepens groups depth' cs' depth'' := by
  by_cases h : groups = []
  · simp [Deepens, h]
  · simp [Deepens, h, List.foldlM_append, Option.bind_eq_some_iff]

/-- The passage with an inline behind it. -/
def Passage.add (p : Passage) (depth : Nat) : Inline → Passage
  | .run text _ => { p with literal := p.literal ++ text, depth }
  | i => { p.append i with depth }

@[simp] theorem Passage.depth_add (p : Passage) (depth : Nat) (i : Inline) :
    (p.add depth i).depth = depth := by
  cases i <;> rfl

theorem Passage.close_add {p : Passage} {i : Inline} (hi : IsPiece commands i)
    (h : p.literal = "" ∨ i.IsCommand) (depth : Nat) : (p.add depth i).close = p.close ++ [i] := by
  cases hi with
  | run hne =>
    have hliteral : p.literal = "" := h.resolve_right id
    simp [add, close, inlinesWithLiteral, hliteral, hne, String.isEmpty_iff, Inline.text]
  | command => exact p.close_append _

namespace Reader

variable {r r' : Reader} {p q : Passage} {groups : List Group} {c : Char} {name : String}
  {kind : CommandKind} {parameters : List Inline} {i : Inline}

/-- The reader has read the passage inside of the groups once what it is in the middle of ends. -/
def Stands (commands : Commands) (r : Reader) (p : Passage) (groups : List Group) : Prop :=
  ∃ s, r.settle commands = .ok s ∧ s.passage = p ∧ s.groups = groups

/-- The reader is at the start of a parameter in the innermost group. -/
def Begins (r : Reader) (group : Group) (outer : List Group) : Prop :=
  r.mode = .text ∧ r.passage = {} ∧ r.groups = group :: outer

/-- The characters lead from a state of the reader to another one. -/
def Reaches (commands : Commands) (r : Reader) (cs : List Char) (r' : Reader) : Prop :=
  cs.foldlM (step commands) r = .ok r'

/-- The inline would not go on with what the reader is in the middle of. -/
def Admits (r : Reader) (i : Inline) : Prop :=
  ∀ c ∈ i.source.toList.head?, ¬ r.mode.Takes c

theorem Reaches.append {r₁ : Reader} {cs cs' : List Char} (h : Reaches commands r cs r₁)
    (h' : Reaches commands r₁ cs' r') : Reaches commands r (cs ++ cs') r' := by
  rw [Reaches, foldlM_append_of_ok h]; exact h'

theorem Reaches.of_step (h : r.step commands c = .ok r') : Reaches commands r [c] r' := by
  rw [Reaches, foldlM_cons_of_step h]; rfl

theorem stands_of_text (h : r.mode = .text) : r.Stands commands r.passage r.groups :=
  ⟨r, settle_of_text h, rfl, rfl⟩

/-- A literal character behind what has ended. -/
theorem Stands.literal (h : r.Stands commands p groups) (hc : ¬ r.mode.Takes c) {depth : Nat}
    (hdepth : Deepens groups p.depth [c] depth) : ∃ r', Reaches commands r [c] r' ∧
      r'.Stands commands { p.push c with depth } groups ∧
      ∀ c', r'.mode.Takes c' → c = '\\' ∧ isNameChar c' := by
  obtain ⟨s, hs, rfl, rfl⟩ := h
  have hstep := step_of_settle hs hc
  refine ⟨_, Reaches.of_step hstep, ?_⟩
  by_cases hback : c = '\\'
  · subst hback
    have hsame : depth = s.passage.depth := by
      rcases hdepth with ⟨-, rfl⟩ | ⟨-, hdepth⟩
      · rfl
      · simpa [literalDepth, eq_comm] using hdepth
    rw [readText_backslash]
    refine ⟨⟨_, settle_eq_ok.2 (Or.inr (Or.inl ⟨rfl, rfl⟩)), ?_, rfl⟩, fun c' hc' => ⟨rfl, hc'⟩⟩
    rw [hsame]
    rfl
  · rw [readText_literal hback (by simpa [Deepens] using hdepth)]
    exact ⟨⟨_, settle_of_text rfl, rfl, rfl⟩, fun c' hc' => hc'.elim⟩

/-- Quiet characters are literal text. -/
theorem Stands.literals {cs : List Char} (h : r.Stands commands p groups) (hquiet : IsQuiet cs)
    (hhead : ∀ c ∈ cs.head?, ¬ r.mode.Takes c) {depth : Nat}
    (hdepth : Deepens groups p.depth cs depth) : ∃ r', Reaches commands r cs r' ∧
      r'.Stands commands { p with literal := p.literal ++ String.ofList cs, depth } groups := by
  induction cs generalizing r p with
  | nil =>
    obtain rfl := deepens_nil.1 hdepth
    exact ⟨r, rfl, by simpa using h⟩
  | cons c cs ih =>
    obtain ⟨depth', hfirst, hrest⟩ := deepens_append.1 (List.singleton_append ▸ hdepth)
    obtain ⟨r₁, hreach, hstands, htakes⟩ := h.literal (hhead c rfl) hfirst
    have hhead' : ∀ c' ∈ cs.head?, ¬ r₁.mode.Takes c' := by
      rcases cs with _ | ⟨c', cs⟩
      · simp
      · rintro _ ⟨⟩ htake
        obtain ⟨hback, hname⟩ := htakes c' htake
        have := (List.isChain_cons_cons.1 hquiet).1 hback
        simp [this] at hname
    obtain ⟨r', hreach', hstands'⟩ := ih hstands hquiet.tail hhead' hrest
    refine ⟨r', hreach.append hreach', ?_⟩
    have htext : p.literal.push c ++ String.ofList cs = p.literal ++ String.ofList (c :: cs) := by
      simp [← String.toList_inj]
    rwa [Passage.push, htext] at hstands'

/-- Further letters of a name. -/
theorem reaches_letters {letters : String} {cs : List Char} (hm : r.mode = .name letters)
    (hcs : ∀ c ∈ cs, isNameChar c) : ∃ r', Reaches commands r cs r' ∧
      r'.mode = .name (letters ++ String.ofList cs) ∧ r'.passage = r.passage ∧
        r'.groups = r.groups := by
  induction cs generalizing r letters with
  | nil => exact ⟨r, rfl, by simpa using hm, rfl, rfl⟩
  | cons c cs ih =>
    have hletter := @step_letter commands r c letters hm (hcs c (by simp))
    obtain ⟨r', hreach, hm', hp, hg⟩ :=
      ih (r := { r with mode := .name (letters.push c), offset := r.offset + c.utf8Size }) rfl
        fun c' hc' => hcs c' (by simp [hc'])
    refine ⟨r', (Reaches.of_step hletter).append hreach, ?_, hp, hg⟩
    have hletters : letters.push c ++ String.ofList cs = letters ++ String.ofList (c :: cs) := by
      simp [← String.toList_inj]
    rw [hm', hletters]

/-- A name behind what has ended. -/
theorem Stands.behind (h : r.Stands commands p groups) (hname : IsName name)
    (hkind : commands.kind name = .ok kind) : ∃ r', Reaches commands r ('\\' :: name.toList) r' ∧
      r'.Behind commands name kind [] ∧ r'.passage = p ∧ r'.groups = groups := by
  obtain ⟨s, hs, rfl, rfl⟩ := h
  obtain ⟨c, cs, hcs⟩ := List.exists_cons_of_ne_nil
    (fun hempty => hname.1 (String.toList_inj.1 hempty))
  have hletters : isNameChar c ∧ ∀ c' ∈ cs, isNameChar c' := by simpa [hcs] using hname.2
  have hback := step_of_settle hs r.mode.not_takes_backslash
  rw [readText_backslash] at hback
  obtain ⟨r₁, hr₁, hm, hp, hg⟩ : ∃ r₁, Reaches commands r ['\\', c] r₁ ∧
      r₁.mode = .name (String.singleton c) ∧ r₁.passage = s.passage ∧ r₁.groups = s.groups :=
    ⟨_, (Reaches.of_step hback).append (Reaches.of_step (step_start rfl hletters.1)), rfl, rfl, rfl⟩
  obtain ⟨r', hr', hm', hp', hg'⟩ := reaches_letters hm hletters.2
  have hwhole : String.singleton c ++ String.ofList cs = name := by
    simp [← String.toList_inj, hcs]
  rw [hwhole] at hm'
  exact ⟨r', hcs ▸ hr₁.append hr', .name hm' hkind, hp'.trans hp, hg'.trans hg⟩

/-- A group behind a command. -/
theorem Behind.opens (h : r.Behind commands name kind parameters) :
    ∃ r' offset, Reaches commands r ['\x7b'] r' ∧
      r'.Begins { offset, name, kind, parameters, outer := r.passage } r.groups :=
  ⟨_, _, Reaches.of_step (step_group h), rfl, rfl, rfl⟩

variable {group : Group} {outer : List Group}

/-- A bar ends a parameter, and another one begins. -/
theorem Stands.bar (h : r.Stands commands p (group :: outer)) (hdepth : p.depth = 0) :
    ∃ r', Reaches commands r ['|'] r' ∧
      r'.Begins { group with parameters := group.parameters ++ [parameter p.close] } outer := by
  obtain ⟨s, hs, rfl, hg⟩ := h
  have hbar := step_of_settle hs r.mode.not_takes_bar
  rw [readText_bar hg hdepth] at hbar
  have hm := mode_of_settle hs
  exact ⟨_, Reaches.of_step hbar, hm, rfl, rfl⟩

/-- A closing brace ends a parameter and its group. -/
theorem Stands.closes (h : r.Stands commands p (group :: outer)) (hdepth : p.depth = 0) :
    ∃ r', Reaches commands r ['\x7d'] r' ∧
      r'.Behind commands group.name group.kind (group.parameters ++ [parameter p.close]) ∧
        r'.passage = group.outer ∧ r'.groups = outer := by
  obtain ⟨s, hs, rfl, hg⟩ := h
  have hclose := step_of_settle hs r.mode.not_takes_close
  rw [readText_close hg hdepth] at hclose
  exact ⟨_, Reaches.of_step hclose, .command rfl, rfl, rfl⟩

/-- A command never goes on with what is before it. -/
theorem admits_command {own : Tags} {evaluation : Evaluation} :
    r.Admits (.command name kind parameters own evaluation) := by
  intro c hc
  rw [toList_source_command] at hc
  obtain rfl : '\\' = c := by simpa using hc
  exact r.mode.not_takes_backslash

theorem admits_run {text : String} {own : Tags} (h : ∀ c ∈ text.toList.head?, ¬ r.mode.Takes c) :
    r.Admits (.run text own) := by
  simpa [Admits] using h

end Reader

/-- The inline is read behind what has ended, and what may stand behind it does not go on with
    it. -/
def IsRead (commands : Commands) (i : Inline) : Prop :=
  ∀ ⦃r : Reader⦄ ⦃p : Passage⦄ ⦃groups : List Group⦄ ⦃depth : Nat⦄,
    r.Stands commands p groups → r.Admits i → Deepens groups p.depth i.literal depth →
      ∃ r', Reader.Reaches commands r i.source.toList r' ∧
        r'.Stands commands (p.add depth i) groups ∧
          ∀ j, IsPiece commands j → MayPrecede i j → r'.Admits j

/-- The inline is read as a parameter. -/
def IsReadAsParameter (commands : Commands) (i : Inline) : Prop :=
  ∀ ⦃r : Reader⦄ ⦃group : Group⦄ ⦃outer : List Group⦄, r.Begins group outer →
    ∃ r' p, Reader.Reaches commands r i.source.toList r' ∧
      r'.Stands commands p (group :: outer) ∧ p.depth = 0 ∧ parameter p.close = i

section
variable {r : Reader} {name : String} {kind : CommandKind} {parameters : List Inline}

open Reader

theorem isRead_run {text : String} (hquiet : IsQuiet text.toList) :
    IsRead commands (.run text .unset) := by
  intro r p groups depth hstands hadmits hdepth
  have hhead : ∀ c ∈ text.toList.head?, ¬ r.mode.Takes c := by simpa [Admits] using hadmits
  obtain ⟨r', hreach, hstands'⟩ := hstands.literals hquiet hhead hdepth
  rw [String.ofList_toList] at hstands'
  refine ⟨r', by simpa using hreach, hstands', fun j hj hmay => ?_⟩
  cases hj with
  | run => exact hmay.elim
  | command => exact admits_command

/-- What may stand behind a command does not go on with it. -/
theorem Reader.Behind.admits {j : Inline} (h : r.Behind commands name kind parameters)
    (hj : IsPiece commands j)
    (hmay : MayPrecede (.command name kind parameters .unset .pending) j) : r.Admits j := by
  cases hj with
  | command => exact admits_command
  | run =>
    refine admits_run fun c hc htake => ?_
    obtain ⟨hopen, hletter⟩ := hmay c hc
    cases h with
    | name hm =>
      rw [hm] at htake
      rcases htake with htake | htake
      · simp [hletter rfl] at htake
      · exact hopen htake
    | command hm =>
      rw [hm] at htake
      exact hopen htake

/-- Parameters with a bar behind each. -/
theorem reaches_barred {qs : List Inline} {group : Group} {outer : List Group}
    (hqs : ∀ q ∈ qs, IsReadAsParameter commands q) (h : r.Begins group outer) :
    ∃ r', Reaches commands r (barred qs) r' ∧
      r'.Begins { group with parameters := group.parameters ++ qs } outer := by
  induction qs generalizing r group with
  | nil => exact ⟨r, rfl, by simpa using h⟩
  | cons q qs ih =>
    obtain ⟨r₁, p, hr₁, hstands, hdepth, hq⟩ := hqs q (by simp) h
    obtain ⟨r₂, hr₂, hbegins⟩ := hstands.bar hdepth
    rw [hq] at hbegins
    obtain ⟨r', hr', hend⟩ := ih (fun q' hq' => hqs q' (by simp [hq'])) hbegins
    refine ⟨r', ?_, by simpa using hend⟩
    rw [barred_cons, List.append_cons]
    exact (hr₁.append hr₂).append hr'

theorem isRead_command (hname : IsName name) (hkind : commands.kind name = .ok kind)
    (hparameters : ∀ q ∈ parameters, IsReadAsParameter commands q) :
    IsRead commands (.command name kind parameters .unset .pending) := by
  intro r p groups depth hstands hadmits hdepth
  obtain ⟨r₁, hr₁, hbehind, rfl, rfl⟩ := hstands.behind hname hkind
  obtain rfl := deepens_nil.1 hdepth
  rcases List.eq_nil_or_concat' parameters with rfl | ⟨init, q, rfl⟩
  · exact ⟨r₁, by simpa using hr₁, ⟨_, hbehind.settle, rfl, rfl⟩, fun j => hbehind.admits⟩
  obtain ⟨r₂, offset, hr₂, hbegins⟩ := hbehind.opens
  have hinit : ∀ q' ∈ init, IsReadAsParameter commands q' :=
    fun q' hq' => hparameters q' (List.mem_append_left _ hq')
  obtain ⟨r₃, hr₃, hlast⟩ := reaches_barred hinit hbegins
  obtain ⟨r₄, p, hr₄, hstands₄, hdepth₄, hq⟩ := hparameters q (by simp) hlast
  obtain ⟨r', hr', hbehind', hp, hg⟩ := hstands₄.closes hdepth₄
  rw [hq] at hbehind'
  refine ⟨r', ?_, ⟨_, hbehind'.settle, ?_, hg⟩, fun j => hbehind'.admits⟩
  · rw [toList_source_command_concat]
    simpa using ((hr₁.append hr₂).append hr₃).append (hr₄.append hr')
  · rw [endCommand, hp]
    rfl

/-- Inlines are read one after the other. -/
theorem reaches_written {l : List Inline} {p : Passage} {groups : List Group} {depth : Nat}
    (hl : IsCanonical commands l) (hread : ∀ i ∈ l, IsRead commands i)
    (hstands : r.Stands commands p groups) (hadmits : ∀ i ∈ l.head?, r.Admits i)
    (hliteral : p.literal = "" ∨ ∀ i ∈ l.head?, i.IsCommand)
    (hdepth : Deepens groups p.depth (l.flatMap literal) depth) :
    ∃ r' p', Reaches commands r (written l) r' ∧ r'.Stands commands p' groups ∧
      p'.close = p.close ++ l ∧ p'.depth = depth := by
  induction l generalizing r p with
  | nil => exact ⟨r, p, rfl, hstands, by simp, (deepens_nil.1 hdepth).symm⟩
  | cons i l ih =>
    rw [List.flatMap_cons, deepens_append] at hdepth
    obtain ⟨depth₁, hfirst, hrest⟩ := hdepth
    obtain ⟨r₁, hr₁, hstands₁, hadmits₁⟩ := hread i (by simp) hstands (hadmits i rfl) hfirst
    have hpiece := hl.isPiece i (by simp)
    have hmay : ∀ j ∈ l.head?, MayPrecede i j := (List.isChain_cons.1 hl.isChain).1
    have hnext : ∀ j ∈ l.head?, r₁.Admits j := fun j hj =>
      hadmits₁ j (hl.isPiece j (by simp [List.mem_of_mem_head? hj])) (hmay j hj)
    -- no run follows another one
    have hliteral₁ : (p.add depth₁ i).literal = "" ∨ ∀ j ∈ l.head?, j.IsCommand := by
      cases hpiece with
      | command => exact Or.inl rfl
      | run =>
        refine Or.inr fun j hj => ?_
        cases hl.isPiece j (by simp [List.mem_of_mem_head? hj]) with
        | run => exact (hmay _ hj).elim
        | command => trivial
    obtain ⟨r', p', hr', hstands', hclose, hd⟩ :=
      ih (.intro (fun j hj => hl.isPiece j (by simp [hj])) (List.isChain_cons.1 hl.isChain).2)
        (fun j hj => hread j (by simp [hj])) hstands₁ hnext hliteral₁
        (by rwa [Passage.depth_add])
    refine ⟨r', p', by simpa using hr₁.append hr', hstands', ?_, hd⟩
    rw [hclose, Passage.close_add hpiece (hliteral.imp_right fun h => h i rfl)]
    simp

theorem Reader.Begins.stands {group : Group} {outer : List Group} (h : r.Begins group outer) :
    r.Stands commands {} (group :: outer) := by
  obtain ⟨hm, hp, hg⟩ := h
  exact hp ▸ hg ▸ stands_of_text hm

/-- At the start of a parameter, any character is text. -/
theorem Reader.Begins.admits {group : Group} {outer : List Group} (h : r.Begins group outer)
    (i : Inline) : r.Admits i := by
  intro c _ htake
  rw [h.1] at htake
  exact htake

/-- A command alone is read like one in a sequence. -/
theorem IsRead.parameter {i : Inline} (hi : i.IsCommand) (hpiece : IsPiece commands i)
    (h : IsRead commands i) : IsReadAsParameter commands i := by
  intro r group outer hbegins
  have hdepth : Deepens (group :: outer) 0 i.literal 0 := by
    cases hpiece with
    | run => exact hi.elim
    | command => exact deepens_nil.2 rfl
  obtain ⟨r', hreach, hstands, -⟩ := h hbegins.stands (hbegins.admits i) hdepth
  refine ⟨r', _, hreach, hstands, Passage.depth_add _ _ _, ?_⟩
  rw [Passage.close_add hpiece (Or.inr hi)]
  cases hpiece with
  | run => exact hi.elim
  | command => rfl

/-- **What is canonical is read**, in a sequence and as a parameter. -/
theorem isRead (i : Inline) : (IsPiece commands i → IsRead commands i) ∧
    (IsParameter commands i → IsReadAsParameter commands i) := by
  induction i using Inline.induction with
  | run text own =>
    constructor
    · intro h
      cases h with
      | run _ hquiet => exact isRead_run hquiet
    · intro h r group outer hbegins
      cases h with
      | command hi => exact hi.elim
      | empty => exact ⟨r, {}, by simp [Reaches, pure, Except.pure], hbegins.stands, rfl, rfl⟩
  | span l own ih =>
    constructor
    · intro h; cases h
    · intro h r group outer hbegins
      cases h with
      | command hi => exact hi.elim
      | span hl hne hlone hbalanced =>
        obtain ⟨r', p, hreach, hstands, hclose, hdepth⟩ := reaches_written hl
          (fun i hi => (ih i hi).1 (hl.isPiece i hi)) hbegins.stands
          (fun i _ => hbegins.admits i) (Or.inl rfl) (Or.inr ⟨by simp, hbalanced⟩)
        refine ⟨r', p, by simpa using hreach, hstands, hdepth, ?_⟩
        rw [hclose]
        exact parameter_eq_span hne hlone
  | command name kind parameters own evaluation ih =>
    have hread : IsPiece commands (.command name kind parameters own evaluation) →
        IsRead commands (.command name kind parameters own evaluation) := by
      intro h
      cases h with
      | command hname hkind hparameters =>
        exact isRead_command hname hkind fun q hq => (ih q hq).2 (hparameters q hq)
    refine ⟨hread, fun h => ?_⟩
    cases h with
    | command hi hpiece => exact (hread hpiece).parameter hi hpiece

end

/-- **Canonical inlines are what their markup is read as.** -/
theorem parse_of_isCanonical {l : List Inline} (h : IsCanonical commands l) :
    parse commands (String.join (sources l)) = .ok l := by
  have hstart : ({} : Reader).Stands commands {} [] := Reader.stands_of_text rfl
  obtain ⟨r, p, hreach, ⟨s, hs, rfl, hg⟩, hclose, -⟩ := reaches_written h
    (fun i hi => (isRead i).1 (h.isPiece i hi)) hstart (fun _ _ _ _ htake => htake) (Or.inl rfl)
    (Or.inl ⟨rfl, rfl⟩)
  rw [← toList_join_sources] at hreach
  exact parse_eq_ok.2 ⟨r, s, hreach, hs, hg, hclose⟩

/-- Canonical inlines with the same markup are the same. -/
theorem IsCanonical.eq_of_sources {l l' : List Inline} (h : IsCanonical commands l)
    (h' : IsCanonical commands l')
    (heq : String.join (sources l) = String.join (sources l')) : l = l' := by
  have hl := parse_of_isCanonical h
  rw [heq, parse_of_isCanonical h'] at hl
  exact (Except.ok.inj hl).symm

/-- **Reading and writing are inverse** on canonical inlines. -/
theorem parse_inverse (commands : Commands) :
    (∀ source inlines, parse commands source = .ok inlines → IsCanonical commands inlines) ∧
      ∀ inlines, IsCanonical commands inlines →
        parse commands (String.join (sources inlines)) = .ok inlines :=
  ⟨fun _ _ => isCanonical_of_parse, fun _ => parse_of_isCanonical⟩

/-- Also if the markup is not the text that was read. -/
theorem parse_inverse_groups : ∃ inlines,
    parse .builtIn "\\lines\x7b\x7d\x7ba\x7bb|c\x7d\x7d| \\" = .ok inlines ∧
      IsCanonical .builtIn inlines ∧
      String.join (sources inlines) = "\\lines\x7b|a\x7bb|c\x7d\x7d| \\" ∧
      parse .builtIn (String.join (sources inlines)) = .ok inlines := by
  have hread : parse .builtIn "\\lines\x7b\x7d\x7ba\x7bb|c\x7d\x7d| \\" = .ok
      [.command "lines" .lines [.run "" .unset, .span [.run "a\x7bb|c\x7d" .unset] .unset] .unset
        .pending, .run "| \\" .unset] := rfl
  have hcanonical := (parse_inverse .builtIn).1 _ _ hread
  exact ⟨_, hread, hcanonical, rfl, (parse_inverse .builtIn).2 _ hcanonical⟩

end Markup

end Rubric
