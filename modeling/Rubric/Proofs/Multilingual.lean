/-
  Rubric — values in several languages, by index and by scan.

  A collection of runs keeps an index beside them, and answers some look-ups from
  it; a list is scanned for each.

  * `Multilingual.Answers items suits answer`: the answer is the first item that
    suits, else the first item of the default language, else none;
  * `RunCollection.get?_positions_ofList`: the index leads to the first run of each
    known language;
  * **`RunCollection.lookups_agree`**: the index and the scan give the same answers.
-/
import Mathlib.Data.List.Induction
import Rubric.Multilingual

namespace Rubric

/-! ## Answers -/

namespace Multilingual

variable {α : Type} [Multilingual α] {items : List α} {suits : α → Prop}

/-- The answer is the first item that suits; else the first item of the default language; else
    there is none. -/
inductive Answers (items : List α) (suits : α → Prop) : Option α → Prop
  | suiting {before after : List α} {item : α} :
      items = before ++ item :: after → suits item → (∀ other ∈ before, ¬ suits other) →
      Answers items suits (some item)
  | default {before after : List α} {item : α} :
      (∀ other ∈ items, ¬ suits other) →
      items = before ++ item :: after → known? item = some .default →
      (∀ other ∈ before, known? other ≠ some .default) → Answers items suits (some item)
  | none : (∀ other ∈ items, ¬ suits other) → (∀ other ∈ items, known? other ≠ some .default) →
      Answers items suits none

/-- A scan for what suits, and then for the default language, gives the answer. -/
theorem answers_scan {p : α → Bool} (hp : ∀ item, p item = true ↔ suits item) :
    Answers items suits ((items.find? p).or (first? items .default)) := by
  rcases hfound : items.find? p with _ | item
  · have hunsuited : ∀ other ∈ items, ¬ suits other := fun other hmem hs =>
      List.find?_eq_none.1 hfound other hmem ((hp other).2 hs)
    rw [Option.none_or, first?]
    rcases hdefault : items.find? fun item => known? item == some .default with _ | item
    · refine .none hunsuited fun other hmem he => ?_
      exact List.find?_eq_none.1 hdefault other hmem (beq_iff_eq.2 he)
    · obtain ⟨he, before, after, hitems, hbefore⟩ := List.find?_eq_some_iff_append.1 hdefault
      refine .default hunsuited hitems (beq_iff_eq.1 he) fun other hmem he => ?_
      simpa [he] using hbefore other hmem
  · obtain ⟨hs, before, after, hitems, hbefore⟩ := List.find?_eq_some_iff_append.1 hfound
    refine .suiting hitems ((hp item).1 hs) fun other hmem hs => ?_
    simpa [(hp other).2 hs] using hbefore other hmem

/-- The look-up by a known language. -/
theorem answers_findKnown? (items : List α) (known : KnownLanguage) :
    Answers items (fun item => known? item = some known) (findKnown? items known) :=
  answers_scan fun _ => beq_iff_eq

/-- The look-up by a language. -/
theorem answers_find? (items : List α) (equivalence : Equivalence) (language : Language) :
    Answers items
      (fun item => ∃ l, language? item = some l ∧ l.isEquivalent equivalence language = true)
      (find? items equivalence language) :=
  answers_scan fun item => by cases language? item <;> simp

/-- Where the language alone decides, a known language is looked up. -/
theorem find?_languageOnly {language : Language} (h : language.known ≠ .unknown) (items : List α) :
    find? items .languageOnly language = findKnown? items language.known := by
  rw [find?, findKnown?, first?]
  congr 2
  funext item
  rcases hl : language? item with _ | l
  · simp [known?, hl]
  · have hknown : ¬ (l.lect.known = .unknown ∧ language.lect.known = .unknown) := fun hu => h hu.2
    simp [known?, hl, Language.isEquivalent, Lect.sameLanguage, Language.known, hknown,
      Bool.beq_eq_decide_eq]

end Multilingual

/-! ## Collections -/

namespace Index

variable {κ α : Type} [DecidableEq κ]

@[simp]
theorem get?_insertIfNew (i : Index κ α) (key other : κ) (value : α) :
    (i.insertIfNew key value).get? other =
      (i.get? other).or (if key = other then some value else none) := by
  unfold insertIfNew
  by_cases he : key = other
  · subst he
    rcases h : i.get? key with _ | old <;> simp [h]
  · split <;> simp [he]

end Index

namespace RunCollection

open Multilingual

theorem ofList_concat (runs : List Run) (run : Run) :
    ofList (runs ++ [run]) = (ofList runs).push run := by
  rw [ofList, List.foldl_append, List.foldl_cons, List.foldl_nil, ofList]

@[simp]
theorem toList_runs_ofList (runs : List Run) : (ofList runs).runs.toList = runs := by
  induction runs using List.reverseRecOn with
  | nil => rfl
  | append_singleton runs run ih => rw [ofList_concat, push, Array.toList_push, ih]

/-- The index leads to the first run of each known language. -/
theorem get?_positions_ofList (runs : List Run) (known : KnownLanguage) :
    (ofList runs).positions.get? known = runs.findIdx? fun run => known? run == some known := by
  induction runs using List.reverseRecOn with
  | nil => rfl
  | append_singleton runs run ih =>
    have hsize : (ofList runs).runs.size = runs.length := by
      rw [← Array.length_toList, toList_runs_ofList]
    rw [ofList_concat, push, List.findIdx?_append, List.findIdx?_singleton, ← ih]
    rcases known? run with _ | own
    · simp
    · simp [hsize]

/-- The index gives the run that a scan for the known language gives. -/
theorem findKnown?_ofList (runs : List Run) (known : KnownLanguage) :
    (ofList runs).findKnown? known = Multilingual.findKnown? runs known := by
  have hat : ∀ i : Nat, (ofList runs).runs[i]? = runs[i]? := fun i => by
    rw [← Array.getElem?_toList, toList_runs_ofList]
  have hfirst : ∀ known, first? runs known =
      ((ofList runs).positions.get? known).bind fun i => runs[i]? := fun known => by
    rw [first?, get?_positions_ofList, List.find?_eq_bind_findIdx?_getElem?]
  simp only [findKnown?, Multilingual.findKnown?, hfirst, hat]
  rcases hi : (ofList runs).positions.get? known with _ | i
  · simp
  · -- a position of the index is one of a run, so the default language is not asked for
    rw [get?_positions_ofList] at hi
    obtain ⟨hlt, -⟩ := List.findIdx?_eq_some_iff_getElem.1 hi
    simp [hlt]

/-- **The index and the scan give the same answers.**  For all runs, with whatever languages, a
    collection of them and the plain list give the same run for every known language, and for
    every language at every strength: the first one that matches, else the first one of the
    default language, else none. -/
theorem lookups_agree (runs : List Run) :
    (∀ known, (ofList runs).findKnown? known = Multilingual.findKnown? runs known ∧
      Answers runs (fun run => known? run = some known) (Multilingual.findKnown? runs known)) ∧
    ∀ equivalence language,
      (ofList runs).find? equivalence language = Multilingual.find? runs equivalence language ∧
      Answers runs
        (fun run => ∃ l, language? run = some l ∧ l.isEquivalent equivalence language = true)
        (Multilingual.find? runs equivalence language) := by
  refine ⟨fun known => ⟨findKnown?_ofList runs known, answers_findKnown? runs known⟩,
    fun equivalence language => ⟨?_, answers_find? runs equivalence language⟩⟩
  rw [find?, toList_runs_ofList]
  split
  · rename_i h
    rw [h.1, findKnown?_ofList, find?_languageOnly h.2]
  · rfl

end RunCollection

end Rubric
