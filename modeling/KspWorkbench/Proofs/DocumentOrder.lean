import KspWorkbench.Document
import Mathlib.Data.List.Perm.Basic

/-!
# The order of document keys

Keys are compared by their paths, which gives a linear order. So the distinct keys of a list, in
increasing order, depend on nothing but which keys there are: `sortDistinct_eq_of_mem_iff`.
-/

namespace KspWorkbench

/-! ## §1 — runs of equal elements -/

section Repetitions

variable {α : Type} [BEq α]

theorem eraseReps_loop_acc (a : α) (xs acc : List α) :
    List.eraseRepsBy.loop (· == ·) a xs acc =
      acc.reverse ++ List.eraseRepsBy.loop (· == ·) a xs [] := by
  induction xs generalizing a acc with
  | nil => simp [List.eraseRepsBy.loop]
  | cons b xs ih =>
    simp only [List.eraseRepsBy.loop]
    cases a == b with
    | true => exact ih a acc
    | false =>
      show List.eraseRepsBy.loop _ b xs (a :: acc) = _ ++ List.eraseRepsBy.loop _ b xs [a]
      rw [ih b (a :: acc), ih b [a]]
      simp

/-- How a list without repetitions is built: of two equal neighbours, the first one goes. -/
theorem eraseReps_cons_cons (a b : α) (xs : List α) :
    (a :: b :: xs).eraseReps = if a == b then (a :: xs).eraseReps else a :: (b :: xs).eraseReps := by
  simp only [List.eraseReps, List.eraseRepsBy, List.eraseRepsBy.loop]
  cases a == b with
  | true => rfl
  | false =>
    show List.eraseRepsBy.loop _ b xs [a] = a :: List.eraseRepsBy.loop _ b xs []
    rw [eraseReps_loop_acc b xs [a]]
    simp

theorem mem_eraseReps [LawfulBEq α] {x : α} {xs : List α} : x ∈ xs.eraseReps ↔ x ∈ xs := by
  cases xs with
  | nil => rfl
  | cons a xs =>
    induction xs generalizing a with
    | nil => rfl
    | cons b xs ih =>
      rw [eraseReps_cons_cons]
      split
      · next h =>
        rw [ih a, eq_of_beq h]
        simp
      · rw [List.mem_cons, ih b]
        exact List.mem_cons.symm

end Repetitions

namespace DocumentKey

/-! ## §2 — a linear order -/

theorem le_iff {a b : DocumentKey} : a.le b = true ↔ a.path ≤ b.path := by
  rw [le, decide_eq_true_iff]
  exact String.not_lt

theorem le_total (a b : DocumentKey) : (a.le b || b.le a) = true := by
  rw [Bool.or_eq_true, le_iff, le_iff]
  exact String.le_total a.path b.path

theorem le_trans (a b c : DocumentKey) (hab : a.le b = true) (hbc : b.le c = true) :
    a.le c = true := by
  rw [le_iff] at *
  exact String.le_trans hab hbc

/-- Keys that come neither before nor after each other are equal, since a key is nothing but its
path. -/
theorem le_antisymm {a b : DocumentKey} (hab : a.le b = true) (hba : b.le a = true) : a = b := by
  rw [le_iff] at *
  cases a
  cases b
  exact congrArg DocumentKey.mk (String.le_antisymm hab hba)

/-- A key is less than another one when it comes before it and differs. -/
theorem lt_iff {a b : DocumentKey} : a < b ↔ a.le b = true ∧ a ≠ b := by
  have hlt : a < b ↔ ¬ b.le a = true := by
    rw [le_iff, String.not_le]
    exact Iff.rfl
  rw [hlt]
  constructor
  · intro h
    have htotal := le_total a b
    rw [Bool.or_eq_true] at htotal
    refine ⟨htotal.resolve_right h, ?_⟩
    rintro rfl
    exact h (le_iff.mpr (String.le_refl _))
  · rintro ⟨hab, hne⟩ hba
    exact hne (le_antisymm hab hba)

/-! ## §3 — the distinct keys of a list -/

/-- The sorted list has the same keys. -/
theorem mem_sortDistinct {key : DocumentKey} {keys : List DocumentKey} :
    key ∈ sortDistinct keys ↔ key ∈ keys := by
  rw [sortDistinct, mem_eraseReps, List.mem_mergeSort]

/-- In a sorted list equal keys stand together, so without repetitions the list increases. -/
theorem pairwise_eraseReps {keys : List DocumentKey} (h : keys.Pairwise (le · ·)) :
    keys.eraseReps.Pairwise (· < ·) := by
  cases keys with
  | nil => exact .nil
  | cons a keys =>
    induction keys generalizing a with
    | nil => exact List.pairwise_singleton _ a
    | cons b keys ih =>
      obtain ⟨ha, hrest⟩ := List.pairwise_cons.mp h
      rw [eraseReps_cons_cons]
      split
      -- equal neighbours: what is left begins with the same key.
      · next hab =>
        rw [eq_of_beq hab]
        exact ih b hrest
      -- the key is less than its neighbour, and hence differs from everything behind it.
      · next hab =>
        have hlt : a < b := lt_iff.mpr ⟨ha b (by simp), fun heq => hab (by simp [heq])⟩
        refine List.pairwise_cons.mpr ⟨fun c hc => ?_, ih b hrest⟩
        rcases List.mem_cons.mp (mem_eraseReps.mp hc) with rfl | hmem
        · exact hlt
        · have hbc := (List.pairwise_cons.mp hrest).1 c hmem
          refine lt_iff.mpr ⟨ha c (by simp [hmem]), ?_⟩
          rintro rfl
          exact (lt_iff.mp hlt).2 (le_antisymm (lt_iff.mp hlt).1 hbc)

/-- **The distinct keys of a list increase.** -/
theorem pairwise_sortDistinct (keys : List DocumentKey) :
    (sortDistinct keys).Pairwise (· < ·) :=
  pairwise_eraseReps (List.pairwise_mergeSort le_trans le_total keys)

theorem nodup_sortDistinct (keys : List DocumentKey) : (sortDistinct keys).Nodup :=
  (pairwise_sortDistinct keys).imp fun h => (lt_iff.mp h).2

/-- Two increasing lists with the same keys are the same. -/
theorem eq_of_pairwise_of_mem_iff {keys keys' : List DocumentKey} (h : keys.Pairwise (· < ·))
    (h' : keys'.Pairwise (· < ·)) (hmem : ∀ key, key ∈ keys ↔ key ∈ keys') : keys = keys' := by
  have hnodup : keys.Nodup := h.imp fun hlt => (lt_iff.mp hlt).2
  have hnodup' : keys'.Nodup := h'.imp fun hlt => (lt_iff.mp hlt).2
  refine ((List.perm_ext_iff_of_nodup hnodup hnodup').mpr hmem).eq_of_pairwise ?_ h h'
  intro a b _ _ hab hba
  exact le_antisymm (lt_iff.mp hab).1 (lt_iff.mp hba).1

/-- **The distinct keys of a list** depend on nothing but which keys there are. -/
theorem sortDistinct_eq_of_mem_iff {keys keys' : List DocumentKey}
    (h : ∀ key, key ∈ keys ↔ key ∈ keys') : sortDistinct keys = sortDistinct keys' :=
  eq_of_pairwise_of_mem_iff (pairwise_sortDistinct keys) (pairwise_sortDistinct keys')
    fun key => by rw [mem_sortDistinct, mem_sortDistinct, h key]

end DocumentKey

end KspWorkbench
