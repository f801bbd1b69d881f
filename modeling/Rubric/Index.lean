/-
  Rubric — indexes: one value under each key.

  * `insert` replaces what stands under the key, `insertIfNew` keeps it;
  * `get?` finds the value under a key, `keys` lists all keys once.
-/

namespace Rubric

/-- Values by key, the one inserted last first. -/
structure Index (κ α : Type) where
  entries : List (κ × α)
  /-- No key stands twice. -/
  nodup : (entries.map (·.1)).Nodup
  deriving Repr

namespace Index

variable {κ α : Type} [DecidableEq κ]

/-- No entries. -/
def empty : Index κ α :=
  ⟨[], .nil⟩

/-- The value under a key. -/
def get? (i : Index κ α) (key : κ) : Option α :=
  (i.entries.find? fun entry => entry.1 = key).map (·.2)

/-- Puts a value under a key, in place of any other. -/
def insert (i : Index κ α) (key : κ) (value : α) : Index κ α where
  entries := (key, value) :: i.entries.filter fun entry => entry.1 ≠ key
  nodup := by
    refine List.nodup_cons.2 ⟨fun hkey => ?_, i.nodup.sublist (List.filter_sublist.map _)⟩
    obtain ⟨entry, hentry, he⟩ := List.mem_map.1 hkey
    simpa [he] using (List.mem_filter.1 hentry).2

/-- Puts a value under a key that has none. -/
def insertIfNew (i : Index κ α) (key : κ) (value : α) : Index κ α :=
  if (i.get? key).isSome then i else i.insert key value

/-- The index of a list of entries; of two under one key the later one counts. -/
def ofList (entries : List (κ × α)) : Index κ α :=
  entries.foldl (fun i entry => i.insert entry.1 entry.2) empty

/-- The keys, each once. -/
def keys (i : Index κ α) : List κ :=
  i.entries.map (·.1)

/-- The number of keys. -/
def size (i : Index κ α) : Nat :=
  i.entries.length

/-- The keys are those that a value stands under. -/
theorem mem_keys {i : Index κ α} {key : κ} : key ∈ i.keys ↔ (i.get? key).isSome := by
  simp [keys, get?]

/-! ## Look-up after insertion -/

@[simp]
theorem get?_empty (key : κ) : (empty : Index κ α).get? key = none :=
  rfl

/-- What is found behind an insertion: the new value under its key, the old one elsewhere. -/
@[simp]
theorem get?_insert (i : Index κ α) (key other : κ) (value : α) :
    (i.insert key value).get? other = if key = other then some value else i.get? other := by
  unfold get? insert
  by_cases h : key = other
  · simp [h]
  · simp only [List.find?_cons, h, decide_false, if_false, List.find?_filter]
    congr 2
    funext entry
    by_cases he : entry.1 = other
    · simp [he, Ne.symm h]
    · simp [he]

end Index

end Rubric
