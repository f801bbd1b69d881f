/-
  Rubric — the edit distance is the least number of edits.

  * `EditStep`, `Edits`: one edit of a word, and a number of them one after the other;
  * `distance`: the recurrence over the first characters of two words, all three edits compared
    at every place;
  * `distance_cons_self`: equal first characters may as well be matched, so that nothing else
    has to be compared there;
  * `isLeast_distance`: no edits are fewer than the distance, and so many suffice;
  * `Rows.Holds`: what a row holds up to a column.  The entries that are written keep it, column
    by column (`Rows.Holds.set_entry`), and so do the rows, character by character
    (`Rows.holds_foldl`);
  * **`isLeast_editDistance`**: the two rows lead to the least number of edits.
-/
import Mathlib.Order.Bounds.Basic
import Rubric.Text.EditDistance

namespace Rubric.Text

/-! ## Edits -/

/-- One word becomes the other by one insertion, deletion or substitution of a character. -/
inductive EditStep : List Char → List Char → Prop
  | insertion (u v : List Char) (x : Char) : EditStep (u ++ v) (u ++ x :: v)
  | deletion (u v : List Char) (x : Char) : EditStep (u ++ x :: v) (u ++ v)
  | substitution (u v : List Char) (x y : Char) : EditStep (u ++ x :: v) (u ++ y :: v)

/-- One word becomes the other by `n` edits, one after the other. -/
inductive Edits : Nat → List Char → List Char → Prop
  | done (u : List Char) : Edits 0 u u
  | step {n : Nat} {u v w : List Char} : EditStep u v → Edits n v w → Edits (n + 1) u w

variable {n m : Nat} {u v w : List Char}

theorem EditStep.cons (x : Char) (h : EditStep u v) : EditStep (x :: u) (x :: v) := by
  cases h with
  | insertion u v y => exact .insertion (x :: u) v y
  | deletion u v y => exact .deletion (x :: u) v y
  | substitution u v y z => exact .substitution (x :: u) v y z

/-- Edits may as well be made from the right. -/
theorem EditStep.reverse (h : EditStep u v) : EditStep u.reverse v.reverse := by
  cases h with
  | insertion u v x => simpa using insertion v.reverse u.reverse x
  | deletion u v x => simpa using deletion v.reverse u.reverse x
  | substitution u v x y => simpa using substitution v.reverse u.reverse x y

theorem Edits.cons (x : Char) (h : Edits n u v) : Edits n (x :: u) (x :: v) := by
  induction h with
  | done u => exact .done (x :: u)
  | step hstep _ ih => exact .step (hstep.cons x) ih

theorem Edits.reverse (h : Edits n u v) : Edits n u.reverse v.reverse := by
  induction h with
  | done u => exact .done u.reverse
  | step hstep _ ih => exact .step hstep.reverse ih

theorem edits_reverse : Edits n u.reverse v.reverse ↔ Edits n u v :=
  ⟨fun h => by simpa using h.reverse, Edits.reverse⟩

/-! ## Distances -/

/-- The least number of edits, by what becomes of the first characters. -/
def distance : List Char → List Char → Nat
  | [], v => v.length
  | x :: u, [] => (x :: u).length
  | x :: u, y :: v =>
    min (distance u v + if x = y then 0 else 1)
      (min (distance u (y :: v) + 1) (distance (x :: u) v + 1))

@[simp] theorem distance_nil_left (v : List Char) : distance [] v = v.length := by
  rw [distance]

@[simp] theorem distance_nil_right (u : List Char) : distance u [] = u.length := by
  cases u <;> rw [distance]

/-- The first characters are matched or substituted, or one of them is deleted or inserted. -/
theorem distance_cons_cons (x y : Char) (u v : List Char) :
    distance (x :: u) (y :: v) = min (distance u v + if x = y then 0 else 1)
      (min (distance u (y :: v) + 1) (distance (x :: u) v + 1)) := by
  rw [distance]

/-- The edits that the distance counts. -/
theorem edits_distance (u v : List Char) : Edits (distance u v) u v := by
  induction u generalizing v with
  | nil =>
    rw [distance_nil_left]
    induction v with
    | nil => exact .done []
    | cons y v ih => exact .step (.insertion [] [] y) (ih.cons y)
  | cons x u ihu =>
    induction v with
    | nil =>
      have hdelete := Edits.step (.deletion [] u x) (ihu [])
      simpa using hdelete
    | cons y v ihv =>
      have hfirst : Edits (distance u v + if x = y then 0 else 1) (x :: u) (y :: v) := by
        split
        · rename_i hxy
          exact hxy ▸ (ihu v).cons x
        · exact .step (.substitution [] u x y) ((ihu v).cons y)
      have hdelete : Edits (distance u (y :: v) + 1) (x :: u) (y :: v) :=
        .step (.deletion [] u x) (ihu (y :: v))
      have hinsert : Edits (distance (x :: u) v + 1) (x :: u) (y :: v) :=
        .step (.insertion [] (x :: u) y) (ihv.cons y)
      have hcases : distance (x :: u) (y :: v) = distance u v + (if x = y then 0 else 1) ∨
          distance (x :: u) (y :: v) = distance u (y :: v) + 1 ∨
          distance (x :: u) (y :: v) = distance (x :: u) v + 1 := by
        rw [distance_cons_cons]
        omega
      rcases hcases with h | h | h
      · exact h ▸ hfirst
      · exact h ▸ hdelete
      · exact h ▸ hinsert

/-- The distance is the same in both directions. -/
theorem distance_comm (u v : List Char) : distance u v = distance v u := by
  induction u generalizing v with
  | nil => simp
  | cons x u ihu =>
    induction v with
    | nil => simp
    | cons y v ihv =>
      have hsame : (if x = y then 0 else 1) = if y = x then 0 else 1 := if_congr eq_comm rfl rfl
      rw [distance_cons_cons, distance_cons_cons, ihu v, ihu (y :: v), ihv, hsame,
        min_comm (distance (y :: v) u + 1)]

theorem distance_cons_left_le (x : Char) (u v : List Char) :
    distance (x :: u) v ≤ distance u v + 1 := by
  cases v with
  | nil => simp
  | cons y v =>
    rw [distance_cons_cons]
    omega

/-- One character less in front makes one edit less at most. -/
theorem distance_le_cons_left (x : Char) (u v : List Char) :
    distance u v ≤ distance (x :: u) v + 1 := by
  induction v with
  | nil => simp; omega
  | cons y v ih =>
    have hinsert : distance u (y :: v) ≤ distance u v + 1 := by
      rw [distance_comm, distance_comm u v]
      exact distance_cons_left_le y v u
    rw [distance_cons_cons]
    omega

/-- **To match equal characters costs nothing**: no other edits of the two words are fewer. -/
theorem distance_cons_self (x : Char) (u v : List Char) :
    distance (x :: u) (x :: v) = distance u v := by
  have hdelete := distance_le_cons_left x v u
  have hinsert := distance_le_cons_left x u v
  rw [distance_comm, distance_comm (x :: v)] at hdelete
  rw [distance_cons_cons, if_pos rfl]
  omega

theorem distance_cons_of_ne {x y : Char} (h : x ≠ y) (u v : List Char) :
    distance (x :: u) (y :: v) =
      1 + min (min (distance u v) (distance u (y :: v))) (distance (x :: u) v) := by
  rw [distance_cons_cons, if_neg h]
  omega

/-- What holds of the edits of two words holds behind a common character. -/
theorem distance_cons_mono {k : Nat} (h : ∀ w, distance u w ≤ distance v w + k) (x : Char)
    (w : List Char) : distance (x :: u) w ≤ distance (x :: v) w + k := by
  induction w with
  | nil => simpa [Nat.add_right_comm] using h []
  | cons y w ih =>
    have hrest := h w
    have hdelete := h (y :: w)
    rw [distance_cons_cons, distance_cons_cons]
    omega

/-- One edit changes the distance by one at most. -/
theorem EditStep.distance_le (h : EditStep u v) (w : List Char) :
    distance u w ≤ distance v w + 1 := by
  suffices hbehind : ∀ (p : List Char) {u v}, (∀ w, distance u w ≤ distance v w + 1) →
      ∀ w, distance (p ++ u) w ≤ distance (p ++ v) w + 1 by
    cases h with
    | insertion p v x => exact hbehind p (distance_le_cons_left x v) w
    | deletion p v x => exact hbehind p (distance_cons_left_le x v) w
    | substitution p v x y =>
      refine hbehind p (fun w => ?_) w
      induction w with
      | nil => simp
      | cons z w ih =>
        rw [distance_cons_cons, distance_cons_cons]
        split <;> split <;> omega
  intro p u v huv
  induction p with
  | nil => exact huv
  | cons x p ih => exact distance_cons_mono ih x

theorem Edits.distance_le (h : Edits n u v) : distance u v ≤ n := by
  induction h with
  | done u =>
    induction u with
    | nil => simp
    | cons x u ih => rwa [distance_cons_self]
  | step hstep _ ih => exact Nat.le_trans (hstep.distance_le _) (Nat.succ_le_succ ih)

/-- **The distance is the least number of edits.** -/
theorem isLeast_distance (u v : List Char) : IsLeast {n | Edits n u v} (distance u v) :=
  ⟨edits_distance u v, fun _ => Edits.distance_le⟩

theorem distance_reverse (u v : List Char) : distance u.reverse v.reverse = distance u v := by
  have hreverse := isLeast_distance u.reverse v.reverse
  simp only [edits_reverse] at hreverse
  exact hreverse.unique (isLeast_distance u v)

/-! ## Rows -/

namespace Rows

variable {n : Nat} {b : Vector Char n} {row : Vector Nat (n + 1)} {x : Char}

/-- The entries of the row up to column `k` are the distances of `u`, read backwards, to the
    prefixes of `b`. -/
def Holds (b : Vector Char n) (u : List Char) (k : Nat) (row : Vector Nat (n + 1)) : Prop :=
  ∀ j (hj : j < n + 1), j ≤ k → row[j] = distance u (b.toList.take j).reverse

theorem holds_start (b : Vector Char n) : Holds b [] n (start n).previous := by
  intro j hj _
  have hlength : (b.toList.take j).length = j := by
    rw [List.length_take, Vector.length_toList]
    omega
  simp [start, hlength]

theorem reverse_take_succ (b : Vector Char n) {j : Nat} (hj : j < n) :
    (b.toList.take (j + 1)).reverse = b[j] :: (b.toList.take j).reverse := by
  rw [List.take_add_one]
  simp [hj]

/-- **The entry that is written is right** if those above it and before it are. -/
theorem entry_eq {previous current : Vector Nat (n + 1)} {j : Fin n}
    (hprevious : Holds b u n previous) (hcurrent : Holds b (x :: u) j current) :
    entry b x previous current j = distance (x :: u) (b.toList.take (j.val + 1)).reverse := by
  have hdiagonal := hprevious j.val (by omega) (by omega)
  have habove := hprevious (j.val + 1) (by omega) (by omega)
  have hleft := hcurrent j.val (by omega) (Nat.le_refl _)
  rw [reverse_take_succ b j.isLt] at habove ⊢
  rw [entry, hdiagonal, habove, hleft]
  split
  · rename_i hx
    rw [← hx, distance_cons_self]
  · rename_i hx
    rw [distance_cons_of_ne hx]

/-- One more entry of the row is right. -/
theorem Holds.set_entry {previous current : Vector Nat (n + 1)} {j : Fin n}
    (hprevious : Holds b u n previous) (hcurrent : Holds b (x :: u) j current) :
    Holds b (x :: u) (j + 1)
      (current.set (j.val + 1) (entry b x previous current j) (Nat.succ_lt_succ j.isLt)) := by
  intro i hi hle
  rw [Vector.getElem_set]
  split
  · rename_i hji
    subst hji
    exact entry_eq hprevious hcurrent
  · exact hcurrent i hi (by omega)

/-- **The row that is written is right**, whatever stood in it. -/
theorem holds_fill {rows : Rows n} (h : Holds b u n rows.previous) :
    Holds b (x :: u) n (rows.fill b x u.length) := by
  have hcolumns : ∀ k (hk : k ≤ n), Holds b (x :: u) k
      (Fin.foldl k (fun current j =>
        current.set (j.val + 1) (entry b x rows.previous current (j.castLE hk)))
        (rows.current.set 0 (u.length + 1))) := by
    intro k hk
    induction k with
    | zero =>
      intro j hj hle
      obtain rfl : j = 0 := by omega
      simp
    | succ k ih =>
      rw [Fin.foldl_succ_last]
      exact h.set_entry (j := ⟨k, hk⟩) (ih (Nat.le_of_succ_le hk))
  exact hcolumns n (Nat.le_refl n)

/-- **Each character of the first word keeps the rows right.** -/
theorem holds_foldl {a u : List Char} {rows : Rows n} (h : Holds b u n rows.previous) :
    Holds b (a.reverse ++ u) n
      ((a.zipIdx u.length).foldl (fun rows (x, i) => rows.next b x i) rows).previous := by
  induction a generalizing u rows with
  | nil => simpa using h
  | cons x a ih =>
    rw [List.zipIdx_cons, List.foldl_cons, List.reverse_cons, List.append_assoc]
    have hnext : Holds b (x :: u) n (rows.next b x u.length).previous := holds_fill h
    exact ih hnext

end Rows

/-- The rows lead to the distance. -/
theorem editDistance_eq (a b : List Char) : editDistance a b = distance a b := by
  have hrows : Rows.Holds (⟨b.toArray, rfl⟩ : Vector Char b.length) (a.reverse ++ []) b.length
      (rowsOf a b).previous :=
    Rows.holds_foldl (u := []) (Rows.holds_start _)
  have hlast := hrows b.length (by omega) (Nat.le_refl _)
  rw [editDistance, hlast]
  simp [distance_reverse]

/-- **The edit distance is the least number of edits.** -/
theorem isLeast_editDistance (a b : List Char) : IsLeast {n | Edits n a b} (editDistance a b) :=
  editDistance_eq a b ▸ isLeast_distance a b

end Rubric.Text
