import SuiteTidy.Order.Insertion
import Mathlib.Tactic.SplitIfs

/-!
Sorting keeps what it sorts. As long as the comparison answers for every two items, sorting has a
result, and the result holds the items of the list in some order, whatever the answers are.
-/

set_option autoImplicit false
set_option relaxedAutoImplicit false

namespace SuiteTidy.Order

variable {α ε : Type} {less : α → α → Except ε Bool} {P : α → Prop}
  (hless : ∀ a b, P a → P b → ∃ r, less a b = .ok r)

include hless

private theorem leadingRun_perm (expect : Bool) {last : α} (hlast : P last) (run : List α)
    {xs : List α} (hxs : ∀ x ∈ xs, P x) :
    ∃ run' later, leadingRun less expect last run xs = .ok (run', later) ∧
      (run' ++ later).Perm (run ++ xs) := by
  induction xs generalizing last run with
  | nil => exact ⟨run, [], rfl, .refl _⟩
  | cons x xs ih =>
    rw [List.forall_mem_cons] at hxs
    obtain ⟨r, hr⟩ := hless x last hxs.1 hlast
    simp only [leadingRun, hr, bind, Except.bind]
    by_cases hexpect : (r == expect) = true
    · rw [if_pos hexpect]
      obtain ⟨run', later, hrun, hperm⟩ := ih hxs.1 (x :: run) hxs.2
      exact ⟨run', later, hrun, hperm.trans List.perm_middle.symm⟩
    · rw [if_neg hexpect]
      exact ⟨run, x :: xs, rfl, .refl _⟩

private theorem placeFor_isOk {sorted : Array α} (hsorted : ∀ x ∈ sorted, P x) {pivot : α}
    (hpivot : P pivot) (fuel lo hi : Nat) :
    ∃ place, placeFor less sorted pivot fuel lo hi = .ok place := by
  induction fuel generalizing lo hi with
  | zero => exact ⟨lo, rfl⟩
  | succ fuel ih =>
    rw [placeFor]
    split_ifs with hrange
    · simp only
      split
      · exact ⟨lo, rfl⟩
      · rename_i item hitem
        obtain ⟨r, hr⟩ := hless pivot item hpivot (hsorted item (Array.mem_of_getElem? hitem))
        simp only [hr, bind, Except.bind]
        cases r with
        | true => exact ih _ _
        | false => exact ih _ _
    · exact ⟨lo, rfl⟩

private theorem insertEach_perm {sorted xs : List α} (hsorted : ∀ x ∈ sorted, P x)
    (hxs : ∀ x ∈ xs, P x) :
    ∃ ys, insertEach less sorted xs = .ok ys ∧ ys.Perm (sorted ++ xs) := by
  induction xs generalizing sorted with
  | nil => exact ⟨sorted, rfl, by rw [List.append_nil]⟩
  | cons x xs ih =>
    rw [List.forall_mem_cons] at hxs
    have harray : ∀ y ∈ sorted.toArray, P y := by simpa using hsorted
    obtain ⟨place, hplace⟩ := placeFor_isOk hless harray hxs.1 sorted.length 0 sorted.length
    -- Wherever the item is put, the list has it and what was there before.
    have hput : (sorted.take place ++ x :: sorted.drop place).Perm (x :: sorted) := by
      have hsplit : (sorted.take place ++ x :: sorted.drop place).Perm
          (x :: (sorted.take place ++ sorted.drop place)) := List.perm_middle
      rwa [List.take_append_drop] at hsplit
    have hall : ∀ y ∈ sorted.take place ++ x :: sorted.drop place, P y := by
      intro y hy
      rcases List.mem_cons.mp (hput.mem_iff.mp hy) with rfl | hy
      · exact hxs.1
      · exact hsorted y hy
    obtain ⟨ys, hys, hperm⟩ := ih hall hxs.2
    refine ⟨ys, by simpa only [insertEach, hplace, bind, Except.bind] using hys, ?_⟩
    exact hperm.trans ((hput.append_right xs).trans List.perm_middle.symm)

theorem sortM_perm {xs : List α} (hxs : ∀ x ∈ xs, P x) :
    ∃ ys, sortM less xs = .ok ys ∧ ys.Perm xs := by
  rcases xs with _ | ⟨x, _ | ⟨y, rest⟩⟩
  · exact ⟨[], rfl, .refl _⟩
  · exact ⟨[x], rfl, .refl _⟩
  · simp only [List.forall_mem_cons] at hxs
    obtain ⟨hx, hy, hrest⟩ := hxs
    obtain ⟨falling, hfalling⟩ := hless y x hy hx
    obtain ⟨run, later, hrun, hperm⟩ := leadingRun_perm hless falling hy [y, x] hrest
    have hall : ∀ z ∈ run ++ later, P z := by
      intro z hz
      have hz := hperm.mem_iff.mp hz
      simp only [List.cons_append, List.nil_append, List.mem_cons] at hz
      rcases hz with rfl | rfl | hz
      · exact hy
      · exact hx
      · exact hrest z hz
    have hrunPerm : (if falling then run else run.reverse).Perm run := by
      cases falling with
      | true => exact .refl _
      | false => exact List.reverse_perm run
    have hstart : ∀ z ∈ (if falling then run else run.reverse), P z := fun z hz =>
      hall z (List.mem_append_left _ (hrunPerm.mem_iff.mp hz))
    obtain ⟨ys, hys, hput⟩ := insertEach_perm hless hstart fun z hz =>
      hall z (List.mem_append_right _ hz)
    refine ⟨ys, by simpa only [sortM, hfalling, hrun, bind, Except.bind] using hys, ?_⟩
    calc ys.Perm ((if falling then run else run.reverse) ++ later) := hput
      List.Perm _ (run ++ later) := hrunPerm.append_right later
      List.Perm _ (y :: x :: rest) := hperm
      List.Perm _ (x :: y :: rest) := List.Perm.swap x y rest

end SuiteTidy.Order
