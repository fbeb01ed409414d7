import Mathlib.Data.List.Perm.Basic
import Mathlib.Data.List.TakeWhile

/-!
# Sequences

What statements about lines and about courses of events need: where an element of two joined
sequences stands, how far a run of elements goes, how an element is erased that is the only one of
its kind, and the interleavings of two sequences. `Interleaves xs ys zs` says that `zs` is made of
`xs` and `ys`, each in its own order, with nothing lost and nothing added.
-/

namespace KspWorkbench

variable {α β : Type}

/-- An element of two joined sequences stands in the first one or in the second one. -/
theorem split_append {xs ys before after : List α} {a : α}
    (h : xs ++ ys = before ++ a :: after) :
    (∃ rest, xs = before ++ a :: rest ∧ after = rest ++ ys) ∨
    (∃ rest, before = xs ++ rest ∧ ys = rest ++ a :: after) := by
  rcases List.append_eq_append_iff.mp h with ⟨rest, hbefore, hys⟩ | ⟨rest, hxs, hafter⟩
  · exact Or.inr ⟨rest, hbefore, hys⟩
  · cases rest with
    | nil => exact Or.inr ⟨[], by simpa using hxs.symm, hafter.symm⟩
    | cons b rest =>
      obtain ⟨rfl, rfl⟩ := List.cons.inj hafter
      exact Or.inl ⟨rest, hxs, rfl⟩

/-- A sequence is a stretch without the separator, or such a stretch, the separator and the rest. -/
theorem separator_induction (separator : α) {motive : List α → Prop}
    (last : ∀ xs, separator ∉ xs → motive xs)
    (cut : ∀ xs rest, separator ∉ xs → motive rest → motive (xs ++ separator :: rest))
    (xs : List α) : motive xs := by
  induction hlength : xs.length using Nat.strongRecOn generalizing xs with
  | _ length ih =>
    subst hlength
    by_cases hmem : separator ∈ xs
    · obtain ⟨first, rest, rfl, hfirst⟩ := List.eq_append_cons_of_mem hmem
      exact cut first rest hfirst (ih rest.length (by simp; omega) rest rfl)
    · exact last xs hmem

/-- A run of elements goes as far as the first one that stops it. -/
theorem span_append {p : α → Bool} (run rest : List α) (hrun : ∀ a ∈ run, p a = true)
    (hrest : ∀ a ∈ rest.head?, p a = false) :
    (run ++ rest).takeWhile p = run ∧ (run ++ rest).dropWhile p = rest := by
  rw [List.takeWhile_append_of_pos hrun, List.dropWhile_append_of_pos hrun]
  cases rest with
  | nil => simp
  | cons a rest => simp [hrest a (by simp)]

/-- There is one way to cut a sequence where a property first fails. -/
theorem span_unique {p : α → Bool} {run rest run' rest' : List α}
    (h : run ++ rest = run' ++ rest') (hrun : ∀ a ∈ run, p a = true)
    (hrest : ∀ a ∈ rest.head?, p a = false) (hrun' : ∀ a ∈ run', p a = true)
    (hrest' : ∀ a ∈ rest'.head?, p a = false) : run = run' ∧ rest = rest' := by
  obtain ⟨htake, hdrop⟩ := span_append run rest hrun hrest
  obtain ⟨htake', hdrop'⟩ := span_append run' rest' hrun' hrest'
  rw [h] at htake hdrop
  exact ⟨htake.symm.trans htake', hdrop.symm.trans hdrop'⟩

theorem stops_dropWhile {p : α → Bool} {xs : List α} {a : α}
    (h : a ∈ (xs.dropWhile p).head?) : p a = false := by
  have hhead := List.head?_dropWhile_not p xs
  rw [Option.mem_def.mp h] at hhead
  simpa using hhead

theorem getLast?_cons_or (a : α) (xs : List α) (before : Option α) :
    (a :: xs).getLast?.or before = xs.getLast?.or (some a) := by
  rw [List.getLast?_cons]
  cases xs.getLast? <;> rfl

/-- Where at most one element is marked, leaving out the marked ones is erasing the first of them. -/
theorem filter_eq_eraseIdx {p : α → Bool} {xs : List α} {i : Nat}
    (hfirst : xs.findIdx? p = some i) (hone : (xs.filter p).length ≤ 1) :
    xs.filter (fun x => !p x) = xs.eraseIdx i := by
  -- up to the first element with the property both keep everything, and behind it there is none
  -- left.
  induction xs generalizing i with
  | nil => simp at hfirst
  | cons x xs ih =>
    rw [List.findIdx?_cons] at hfirst
    cases hx : p x with
    | true =>
      have hrest : xs.filter p = [] := by
        rw [List.filter_cons_of_pos hx, List.length_cons] at hone
        exact List.length_eq_zero_iff.mp (by omega)
      rw [if_pos hx] at hfirst
      cases hfirst
      rw [List.filter_cons_of_neg (by simp [hx]), List.eraseIdx_zero, List.tail_cons]
      refine List.filter_eq_self.mpr fun y hy => ?_
      have hnot := List.filter_eq_nil_iff.mp hrest y hy
      simpa using hnot
    | false =>
      rw [hx] at hfirst
      obtain ⟨j, hj, rfl⟩ := Option.map_eq_some_iff.mp hfirst
      rw [List.filter_cons_of_neg (by simp [hx])] at hone
      rw [List.filter_cons_of_pos (by simp [hx]), List.eraseIdx_cons_succ, ih hj hone]

/-- The third sequence is made of the first two, each in its own order. -/
inductive Interleaves : List α → List α → List α → Prop where
  | nil : Interleaves [] [] []
  | left (x : α) {xs ys zs : List α} (h : Interleaves xs ys zs) :
      Interleaves (x :: xs) ys (x :: zs)
  | right (y : α) {xs ys zs : List α} (h : Interleaves xs ys zs) :
      Interleaves xs (y :: ys) (y :: zs)

namespace Interleaves

theorem append_left (as : List α) {xs ys zs : List α} (h : Interleaves xs ys zs) :
    Interleaves (as ++ xs) ys (as ++ zs) := by
  induction as with
  | nil => exact h
  | cons a as ih => exact .left a ih

theorem append_right (bs : List α) {xs ys zs : List α} (h : Interleaves xs ys zs) :
    Interleaves xs (bs ++ ys) (bs ++ zs) := by
  induction bs with
  | nil => exact h
  | cons b bs ih => exact .right b ih

/-- Nothing is lost and nothing is added. -/
theorem perm {xs ys zs : List α} (h : Interleaves xs ys zs) : (xs ++ ys).Perm zs := by
  induction h with
  | nil => exact .nil
  | left x _ ih => exact ih.cons x
  | right y _ ih => exact List.perm_middle.trans (ih.cons y)

/-- Interleavings can be put one behind the other. -/
theorem append {xs ys zs xs' ys' zs' : List α} (h : Interleaves xs ys zs)
    (h' : Interleaves xs' ys' zs') : Interleaves (xs ++ xs') (ys ++ ys') (zs ++ zs') := by
  induction h with
  | nil => exact h'
  | left x _ ih => exact .left x ih
  | right y _ ih => exact .right y ih

theorem concat_left {xs ys zs : List α} (h : Interleaves xs ys zs) (x : α) :
    Interleaves (xs ++ [x]) ys (zs ++ [x]) := by
  simpa using h.append (.left x .nil)

theorem concat_right {xs ys zs : List α} (h : Interleaves xs ys zs) (y : α) :
    Interleaves xs (ys ++ [y]) (zs ++ [y]) := by
  simpa using h.append (.right y .nil)

/-- What is made of each element stays together. -/
theorem flatMap (f : α → List β) {xs ys zs : List α} (h : Interleaves xs ys zs) :
    Interleaves (xs.flatMap f) (ys.flatMap f) (zs.flatMap f) := by
  induction h with
  | nil => exact .nil
  | left x _ ih => exact ih.append_left (f x)
  | right y _ ih => exact ih.append_right (f y)

end Interleaves

end KspWorkbench
