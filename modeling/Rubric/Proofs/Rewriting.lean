/-
  Rubric — what it means to apply a table.

  A table compares no lengths when it is applied: its entries are sorted once, and the first that
  matches is taken.

  * `Table.Fits`, `Table.Takes`: the text goes on with a key; of the entries whose keys it goes on
    with, the one that counts;
  * `Table.Rewrites`: how a text is rewritten from the left, entry by entry; there is one way only
    (`Rewrites.unique`);
  * `Table.find?_mergeSort`: sorting keeps entries of one length in their order;
    `Table.takes_of_match?`: so the first match is the entry that counts;
  * **`Table.apply_iff_rewrites`**: a table rewrites a text in this way, and in which order
    entries with different keys are given makes no difference.
-/
import Mathlib.Data.List.Basic
import Mathlib.Data.List.Perm.Basic
import Rubric.Analyzer.Table

namespace Rubric.Table

open Text

variable {entries entries' : List (String × String)} {entry entry' : String × String}
  {text result : List Char} {preserves : Bool} {n : Nat}

/-! ## Rewriting -/

/-- The key of an entry in lowercase. -/
def lowered (entry : String × String) : List Char :=
  entry.1.toList.map lower

/-- The text goes on with the key of the entry, whatever the case of its letters. -/
def Fits (entry : String × String) (text : List Char) : Prop :=
  entry.1 ≠ "" ∧ (text.take entry.1.length).map lower = lowered entry

/-- Of the entries whose keys the text goes on with, this one has the longest key; of those with
    its key it was given first. -/
structure Takes (entries : List (String × String)) (text : List Char) (entry : String × String) :
    Prop where
  fits : Fits entry text
  longest : ∀ other ∈ entries, Fits other text → other.1.length ≤ entry.1.length
  first : entries.find? (fun other => lowered other == lowered entry) = some entry

/-- A text is rewritten from the left: where keys match, the value of the entry that counts takes
    the place of its key, capitalized if uppercase is to be preserved and the text has it there;
    where none does, a character is kept. -/
inductive Rewrites (entries : List (String × String)) (preserves : Bool) :
    List Char → List Char → Prop
  | done : Rewrites entries preserves [] []
  | keep {c : Char} {text result : List Char} :
      (∀ entry ∈ entries, ¬ Fits entry (c :: text)) → Rewrites entries preserves text result →
      Rewrites entries preserves (c :: text) (c :: result)
  | replace {c : Char} {text result : List Char} {entry : String × String} :
      Takes entries (c :: text) entry →
      Rewrites entries preserves ((c :: text).drop entry.1.length) result →
      Rewrites entries preserves (c :: text)
        ((if preserves && isUppercase c then capitalize entry.2 else entry.2).toList ++ result)

namespace Takes

theorem mem (h : Takes entries text entry) : entry ∈ entries :=
  List.mem_of_find?_eq_some h.first

/-- One entry counts at most. -/
theorem unique (h : Takes entries text entry) (h' : Takes entries text entry') :
    entry = entry' := by
  have hlength : entry.1.length = entry'.1.length :=
    Nat.le_antisymm (h'.longest entry h.mem h.fits) (h.longest entry' h'.mem h'.fits)
  have hkey : lowered entry = lowered entry' := by
    rw [← h.fits.2, ← h'.fits.2, hlength]
  have hfirst := h.first
  rw [hkey, h'.first] at hfirst
  exact (Option.some.inj hfirst).symm

end Takes

/-- A text is rewritten in one way only. -/
theorem Rewrites.unique {result' : List Char} (h : Rewrites entries preserves text result)
    (h' : Rewrites entries preserves text result') : result = result' := by
  induction h generalizing result' with
  | done => cases h'; rfl
  | keep hnone _ ih =>
    cases h' with
    | keep _ hrest => rw [ih hrest]
    | replace htakes _ => exact absurd htakes.fits (hnone _ htakes.mem)
  | replace htakes _ ih =>
    cases h' with
    | keep hnone _ => exact absurd htakes.fits (hnone _ htakes.mem)
    | replace htakes' hrest =>
      obtain rfl := htakes.unique htakes'
      rw [ih hrest]

/-! ## Sorted entries -/

/-- An entry as the table keeps it. -/
def kept (entry : String × String) : List Char × String :=
  (lowered entry, entry.2)

theorem entries_ofList (entries : List (String × String)) :
    (ofList entries).entries = (entries.map kept).mergeSort longerFirst :=
  rfl

theorem longerFirst_trans (a b d : List Char × String) (h : longerFirst a b = true)
    (h' : longerFirst b d = true) : longerFirst a d = true := by
  simp only [longerFirst, decide_eq_true_eq] at *
  omega

theorem longerFirst_total (a b : List Char × String) :
    (longerFirst a b || longerFirst b a) = true := by
  simp only [longerFirst, Bool.or_eq_true, decide_eq_true_eq]
  omega

theorem mem_entries_ofList {e : List Char × String} :
    e ∈ (ofList entries).entries ↔ ∃ entry ∈ entries, kept entry = e := by
  rw [entries_ofList, (List.mergeSort_perm _ _).mem_iff, List.mem_map]

/-- Longer keys come first. -/
theorem pairwise_entries_ofList (entries : List (String × String)) :
    (ofList entries).entries.Pairwise fun a b => b.1.length ≤ a.1.length := by
  refine (List.pairwise_mergeSort longerFirst_trans longerFirst_total (entries.map kept)).imp ?_
  intro a b h
  simpa only [longerFirst, decide_eq_true_eq] using h

/-- Sorting by length keeps the order of those that are of one length. -/
theorem find?_mergeSort {l : List (List Char × String)} {p : List Char × String → Bool}
    (hp : ∀ a b, p a = true → p b = true → a.1.length = b.1.length) :
    (l.mergeSort longerFirst).find? p = l.find? p := by
  have hordered : (l.filter p).Pairwise (longerFirst · · = true) := by
    refine List.pairwise_of_forall_mem_list fun a ha b hb => ?_
    have hlength := hp a b (List.mem_filter.1 ha).2 (List.mem_filter.1 hb).2
    simp only [longerFirst, decide_eq_true_eq]
    omega
  have hsub : ((l.filter p).filter p).Sublist ((l.mergeSort longerFirst).filter p) :=
    (List.sublist_mergeSort longerFirst_trans longerFirst_total hordered
      List.filter_sublist).filter p
  rw [List.filter_filter, show (fun a => p a && p a) = p from funext fun a => Bool.and_self _]
    at hsub
  have heq := hsub.eq_of_length ((List.mergeSort_perm l longerFirst).filter p).length_eq.symm
  rw [← List.head?_filter, ← List.head?_filter, heq]

/-! ## The first match -/

theorem starts_iff {key text : List Char} :
    starts key text = true ↔ (text.take key.length).map lower = key := by
  induction key generalizing text with
  | nil => simp [starts]
  | cons k key ih =>
    cases text with
    | nil => simp [starts]
    | cons c text =>
      rw [starts, Bool.and_eq_true, beq_iff_eq, ih, List.length_cons, List.take_succ_cons,
        List.map_cons, List.cons.injEq, eq_comm]

@[simp]
theorem length_lowered (entry : String × String) : (lowered entry).length = entry.1.length := by
  rw [lowered, List.length_map, String.length_toList]

/-- An entry matches where the text goes on with its key. -/
theorem matches_iff_fits :
    (!(kept entry).1.isEmpty && starts (kept entry).1 text) = true ↔ Fits entry text := by
  have hempty : (lowered entry).isEmpty = false ↔ entry.1 ≠ "" := by
    simp [lowered]
  rw [Bool.and_eq_true, Bool.not_eq_true', kept, hempty, starts_iff, length_lowered]
  exact Iff.rfl

theorem match?_eq_none_iff :
    (ofList entries).match? text = none ↔ ∀ entry ∈ entries, ¬ Fits entry text := by
  simp only [match?, List.find?_eq_none, mem_entries_ofList]
  constructor
  · intro h entry hentry hfits
    exact h _ ⟨entry, hentry, rfl⟩ (matches_iff_fits.2 hfits)
  · rintro h _ ⟨entry, hentry, rfl⟩ hmatch
    exact h entry hentry (matches_iff_fits.1 hmatch)

/-- **The first match is the entry that counts.** -/
theorem takes_of_match? {e : List Char × String} (h : (ofList entries).match? text = some e) :
    ∃ entry, Takes entries text entry ∧ kept entry = e := by
  obtain ⟨hmatch, before, behind, hsplit, hbefore⟩ := List.find?_eq_some_iff_append.1 h
  -- no entry with this key stands before the match, for it would match as well
  have hfirst : (ofList entries).entries.find? (fun other => other.1 == e.1) = some e := by
    refine List.find?_eq_some_iff_append.2 ⟨beq_self_eq_true e.1, before, behind, hsplit, ?_⟩
    intro other hother
    rw [Bool.not_eq_true', beq_eq_false_iff_ne]
    intro hkey
    have hnot := hbefore other hother
    rw [hkey, hmatch] at hnot
    cases hnot
  have hlength : ∀ a b : List Char × String, (a.1 == e.1) = true → (b.1 == e.1) = true →
      a.1.length = b.1.length := fun a b ha hb => by rw [eq_of_beq ha, eq_of_beq hb]
  rw [entries_ofList, find?_mergeSort hlength, List.find?_map, Option.map_eq_some_iff] at hfirst
  obtain ⟨entry, hentry, rfl⟩ := hfirst
  refine ⟨entry, ⟨matches_iff_fits.1 hmatch, fun other hother hfits => ?_, hentry⟩, rfl⟩
  -- what matches stands at the match or behind it, and longer keys come first
  have hmem : kept other ∈ before ++ kept entry :: behind :=
    hsplit ▸ mem_entries_ofList.2 ⟨other, hother, rfl⟩
  have hsorted := pairwise_entries_ofList entries
  rw [hsplit, List.pairwise_append, List.pairwise_cons] at hsorted
  rcases List.mem_append.1 hmem with hmem | hmem
  · have hnot := hbefore _ hmem
    rw [matches_iff_fits.2 hfits] at hnot
    cases hnot
  · rcases List.mem_cons.1 hmem with hsame | hmem
    · have hkey : lowered other = lowered entry := congrArg Prod.fst hsame
      have hsame : other.1.length = entry.1.length := by
        rw [← length_lowered other, hkey, length_lowered]
      exact Nat.le_of_eq hsame
    · simpa [kept] using hsorted.2.1.1 _ hmem

/-! ## Applying a table -/

/-- What is replaced already is left out. -/
theorem replaceFrom_eq_drop (table : Table) (n : Nat) (text : List Char) :
    table.replaceFrom n text = table.replaceFrom 0 (text.drop n) := by
  induction text generalizing n with
  | nil => simp [replaceFrom]
  | cons c text ih =>
    cases n with
    | zero => rfl
    | succ n => rw [replaceFrom, ih, List.drop_succ_cons]

/-- Applying a table rewrites the text. -/
theorem rewrites_replaceFrom (entries : List (String × String)) (preserves : Bool)
    (text : List Char) : Rewrites entries preserves text
      ({ ofList entries with preservesCase := preserves }.replaceFrom 0 text) := by
  induction hlength : text.length using Nat.strongRecOn generalizing text with
  | _ n ih =>
    subst hlength
    cases text with
    | nil => exact .done
    | cons c text =>
      rw [replaceFrom]
      rcases hmatch : (ofList entries).match? (c :: text) with _ | ⟨key, value⟩
      · rw [show ({ ofList entries with preservesCase := preserves } : Table).match? (c :: text) =
          none from hmatch]
        exact .keep (match?_eq_none_iff.1 hmatch) (ih _ (by simp) _ rfl)
      · rw [show ({ ofList entries with preservesCase := preserves } : Table).match? (c :: text) =
          some (key, value) from hmatch]
        obtain ⟨entry, htakes, hkept⟩ := takes_of_match? hmatch
        obtain ⟨rfl, rfl⟩ := Prod.mk.inj hkept
        have hpos : 0 < entry.1.length :=
          Nat.pos_of_ne_zero fun h => htakes.fits.1 (String.length_eq_zero_iff.1 h)
        have hdrop : text.drop ((lowered entry).length - 1) = (c :: text).drop entry.1.length := by
          obtain ⟨m, hm⟩ := Nat.exists_eq_add_one.2 hpos
          rw [length_lowered, hm, List.drop_succ_cons, Nat.add_sub_cancel]
        dsimp only
        rw [replaceFrom_eq_drop, hdrop]
        exact .replace htakes (ih _ (by simp; omega) _ rfl)

/-- Of entries with different keys each one is the first with its key. -/
theorem find?_lowered (hkeys : (entries.map lowered).Nodup) (hentry : entry ∈ entries) :
    entries.find? (fun other => lowered other == lowered entry) = some entry := by
  obtain ⟨before, behind, rfl⟩ := List.append_of_mem hentry
  refine List.find?_eq_some_iff_append.2 ⟨beq_self_eq_true _, before, behind, rfl, ?_⟩
  intro other hother
  rw [List.map_append, List.map_cons, List.nodup_append] at hkeys
  have hne := hkeys.2.2 _ (List.mem_map_of_mem hother) _ List.mem_cons_self
  simpa using hne

/-- In another order of entries with different keys the same entry counts. -/
theorem Takes.of_perm (h : Takes entries text entry) (hperm : entries.Perm entries')
    (hkeys : (entries.map lowered).Nodup) : Takes entries' text entry where
  fits := h.fits
  longest other hother := h.longest other (hperm.mem_iff.2 hother)
  first := find?_lowered ((hperm.map lowered).nodup_iff.1 hkeys) (hperm.mem_iff.1 h.mem)

theorem Rewrites.of_perm (h : Rewrites entries preserves text result)
    (hperm : entries.Perm entries') (hkeys : (entries.map lowered).Nodup) :
    Rewrites entries' preserves text result := by
  induction h with
  | done => exact .done
  | keep hnone _ ih => exact .keep (fun entry hentry => hnone entry (hperm.mem_iff.2 hentry)) ih
  | replace htakes _ ih => exact .replace (htakes.of_perm hperm hkeys) ih

/-- A text is what a table makes of another one if it is rewritten to it. -/
theorem apply_eq_iff {text result : String} :
    { ofList entries with preservesCase := preserves }.apply text = result ↔
      Rewrites entries preserves text.toList result.toList := by
  have hrewrites := rewrites_replaceFrom entries preserves text.toList
  constructor
  · rintro rfl
    rw [apply, String.toList_ofList]
    exact hrewrites
  · intro h
    rw [apply, hrewrites.unique h, String.ofList_toList]

/-- **Tables rewrite by leftmost longest match.**  For all entries, with uppercase carried over or
    not, and for all texts: the table gives the text that the given one is rewritten to, from the
    left, by the entry with the longest key at each place where one matches.  So it makes no
    difference in which order entries are given whose keys are different in lowercase. -/
theorem apply_iff_rewrites (entries : List (String × String)) (preserves : Bool) :
    (∀ text result : String,
      { ofList entries with preservesCase := preserves }.apply text = result ↔
        Rewrites entries preserves text.toList result.toList) ∧
    ∀ entries', entries.Perm entries' → (entries.map lowered).Nodup → ∀ text : String,
      { ofList entries with preservesCase := preserves }.apply text =
        { ofList entries' with preservesCase := preserves }.apply text := by
  refine ⟨fun text result => apply_eq_iff, fun entries' hperm hkeys text => ?_⟩
  have hkeys' := (hperm.map lowered).nodup_iff.1 hkeys
  exact apply_eq_iff.2 ((apply_eq_iff.1 rfl).of_perm hperm.symm hkeys')

/-- Keys that overlap and differ in case, in two orders: the longest one is replaced, with a
    capital where the text has one, and no key at the end of a text that is too short for it. -/
theorem apply_iff_rewrites_of_overlap :
    let entries := [("a", "1"), ("Ab", "two"), ("abc", "x"), ("", "-")]
    let reordered := [("", "-"), ("abc", "x"), ("a", "1"), ("Ab", "two")]
    { ofList entries with preservesCase := true }.apply "abCABaAb" = "xTwo1Two" ∧
      Rewrites entries true "abCABaAb".toList "xTwo1Two".toList ∧
      ∀ text : String, { ofList entries with preservesCase := true }.apply text =
        { ofList reordered with preservesCase := true }.apply text := by
  intro entries reordered
  obtain ⟨hrewrites, horder⟩ := apply_iff_rewrites entries true
  have hlower : (lower 'A' = 'a' ∧ lower 'a' = 'a') ∧ lower 'b' = 'b' ∧ lower 'c' = 'c' := by
    decide +kernel
  have hsorted : (ofList entries).entries =
      [(['a', 'b', 'c'], "x"), (['a', 'b'], "two"), (['a'], "1"), ([], "-")] := by
    simp [entries, ofList, longerFirst, List.mergeSort, List.MergeSort.Internal.splitInTwo, hlower]
  have happly : { ofList entries with preservesCase := true }.apply "abCABaAb" = "xTwo1Two" := by
    dsimp only
    rw [hsorted]
    decide +kernel
  exact ⟨happly, (hrewrites _ _).1 happly, horder reordered (by decide) (by decide +kernel)⟩

end Rubric.Table
