/-
  Rubric — the names that are suggested for a name that is not registered.

  * `Commands.mem_names`, `Commands.nodup_names`: the names are those of the index, each once;
  * `Commands.Precedes`: the order of the suggestions, by distance and then by name;
  * `Commands.mem_closeNames`, `Commands.pairwise_closeNames`: which names are close, and that
    they come in order;
  * **`Commands.suggests_exactly_of_unregistered`**: the error names the registered names that are
    close enough and no others, in order.
-/
import Mathlib.Data.List.Nodup
import Rubric.Command.Registry
import Rubric.Proofs.EditDistance

namespace Rubric

open Text

namespace Commands

variable {commands : Commands} {name other : String}

theorem mem_names : other ∈ commands.names ↔ (commands.get? other).isSome := by
  rw [names, (List.mergeSort_perm _ _).mem_iff]
  exact Index.mem_keys

theorem nodup_names (commands : Commands) : commands.names.Nodup :=
  (List.mergeSort_perm _ _).nodup_iff.2 commands.index.nodup

/-- The first name comes before the second one: it is closer to `name`, or as close and smaller. -/
def Precedes (name x y : String) : Prop :=
  editDistance name.toList x.toList < editDistance name.toList y.toList ∨
    editDistance name.toList x.toList = editDistance name.toList y.toList ∧ x < y

theorem closer_iff {a b : Nat × String} :
    closer a b = true ↔ a.1 < b.1 ∨ a.1 = b.1 ∧ a.2 ≤ b.2 := by
  simp [closer]

theorem closer_trans (a b c : Nat × String) (hab : closer a b = true) (hbc : closer b c = true) :
    closer a c = true := by
  rw [closer_iff] at *
  rcases hab with hab | ⟨hab, hle⟩
  · omega
  · rcases hbc with hbc | ⟨hbc, hle'⟩
    · omega
    · exact Or.inr ⟨hab.trans hbc, String.le_trans hle hle'⟩

theorem closer_total (a b : Nat × String) : (closer a b || closer b a) = true := by
  rw [Bool.or_eq_true, closer_iff, closer_iff]
  rcases Nat.lt_trichotomy a.1 b.1 with h | h | h
  · exact Or.inl (Or.inl h)
  · exact (String.le_total a.2 b.2).imp (fun hle => Or.inr ⟨h, hle⟩) fun hle => Or.inr ⟨h.symm, hle⟩
  · exact Or.inr (Or.inl h)

theorem mem_closeNames : other ∈ commands.closeNames name ↔
    other ∈ commands.names ∧ editDistance name.toList other.toList ≤ tolerance name := by
  simp only [closeNames, List.mem_map, (List.mergeSort_perm _ _).mem_iff, List.mem_filter]
  constructor
  · rintro ⟨_, ⟨⟨other, hother, rfl⟩, hle⟩, rfl⟩
    exact ⟨hother, by simpa using hle⟩
  · rintro ⟨hother, hle⟩
    exact ⟨_, ⟨⟨other, hother, rfl⟩, by simpa using hle⟩, rfl⟩

/-- **The suggestions come in order**, each of them once. -/
theorem pairwise_closeNames (commands : Commands) (name : String) :
    (commands.closeNames name).Pairwise (Precedes name) := by
  let close := (commands.names.map fun other =>
    (editDistance name.toList other.toList, other)).filter fun entry => entry.1 ≤ tolerance name
  have hsorted : (close.mergeSort closer).Pairwise fun a b => closer a b = true :=
    List.pairwise_mergeSort closer_trans closer_total close
  have hnodup : (close.mergeSort closer).Nodup := by
    have hinjective : Function.Injective fun other : String =>
        (editDistance name.toList other.toList, other) := fun _ _ h => congrArg Prod.snd h
    have hpairs := List.Nodup.map hinjective commands.nodup_names
    exact (List.mergeSort_perm _ _).nodup_iff.2 (hpairs.sublist List.filter_sublist)
  have hdistance : ∀ entry ∈ close.mergeSort closer,
      entry.1 = editDistance name.toList entry.2.toList := by
    intro entry hentry
    have hmem := (List.mem_filter.1 ((List.mergeSort_perm _ _).mem_iff.1 hentry)).1
    obtain ⟨other, -, rfl⟩ := List.mem_map.1 hmem
    rfl
  rw [closeNames, List.pairwise_map]
  refine (hsorted.and hnodup).imp_of_mem fun {a b} ha hb ⟨hcloser, hne⟩ => ?_
  rw [Precedes, ← hdistance a ha, ← hdistance b hb]
  rcases closer_iff.1 hcloser with hless | ⟨hsame, hle⟩
  · exact Or.inl hless
  · have hless : a.2 < b.2 := String.not_le.1 fun hge =>
      hne (Prod.ext hsame (String.le_antisymm hle hge))
    exact Or.inr ⟨hsame, hless⟩

/-- **Suggestions are exact**: a name that is not registered is refused with those registered names
    that so few edits lead to, the closest first and equally close ones by name, each of them once.
    The distances that decide this are the least numbers of edits. -/
theorem suggests_exactly_of_unregistered (h : commands.get? name = none) :
    (∃ close, commands.kind name = .error (.unknownCommand name close) ∧
      (∀ other, other ∈ close ↔ (commands.get? other).isSome ∧
        editDistance name.toList other.toList ≤ max 2 (name.length / 3)) ∧
      close.Pairwise (Precedes name)) ∧
    ∀ a b, IsLeast {n | Edits n a b} (editDistance a b) := by
  refine ⟨⟨commands.closeNames name, ?_, fun other => ?_, commands.pairwise_closeNames name⟩,
    isLeast_editDistance⟩
  · rw [kind, h]
  · rw [mem_closeNames, mem_names, tolerance]

/-- What is suggested for `ipf` among the built-in commands. -/
theorem suggestions_for_ipf : builtIn.get? "ipf" = none ∧
    ∃ close, builtIn.kind "ipf" = .error (.unknownCommand "ipf" close) ∧
      "if" ∈ close ∧ "ipa" ∈ close ∧ "def" ∈ close ∧ "abv" ∉ close ∧
      close.Pairwise (Precedes "ipf") := by
  have hunregistered : builtIn.get? "ipf" = none := by decide +kernel
  obtain ⟨⟨close, hkind, hmem, hordered⟩, -⟩ := suggests_exactly_of_unregistered hunregistered
  refine ⟨hunregistered, close, hkind, ?_, ?_, ?_, ?_, hordered⟩ <;> rw [hmem] <;> decide +kernel

end Commands

end Rubric
