import Mathlib.Data.List.Nodup

/-!
Sorted lists and lists without repetitions. Sorting changes no order among items that may stand
either way round, such as items with the same key.
-/

set_option autoImplicit false
set_option relaxedAutoImplicit false

namespace SuiteTidy.Order

variable {α : Type}

section Kept

variable {le : α → α → Bool}

private theorem eq_of_append_eq_append {l₁ l₂ m₁ m₂ : List α} (q : α → Bool)
    (hl₁ : ∀ b ∈ l₁, q b = true) (hl₂ : ∀ b ∈ l₂, q b = false) (hm₁ : ∀ b ∈ m₁, q b = true)
    (hm₂ : ∀ b ∈ m₂, q b = false) (h : l₁ ++ l₂ = m₁ ++ m₂) : l₁ = m₁ ∧ l₂ = m₂ := by
  have hfilter := congrArg (List.filter q) h
  have hl₂' : l₂.filter q = [] := List.filter_eq_nil_iff.mpr (by simpa using hl₂)
  have hm₂' : m₂.filter q = [] := List.filter_eq_nil_iff.mpr (by simpa using hm₂)
  rw [List.filter_append, List.filter_append, hl₂', hm₂', List.filter_eq_self.mpr hl₁,
    List.filter_eq_self.mpr hm₁, List.append_nil, List.append_nil] at hfilter
  exact ⟨hfilter, List.append_cancel_left (hfilter ▸ h)⟩

theorem filter_mergeSort (trans : ∀ a b c, le a b = true → le b c = true → le a c = true)
    (total : ∀ a b, (le a b || le b a) = true) (p : α → Bool) (l : List α) :
    (l.mergeSort le).filter p = (l.filter p).mergeSort le := by
  induction l with
  | nil => simp
  | cons a l ih =>
    obtain ⟨l₁, l₂, hall, hrest, hbefore⟩ := List.mergeSort_cons trans total a l
    rw [hrest, List.filter_append] at ih
    rw [hall, List.filter_append]
    by_cases ha : p a = true
    · -- The item stands between those that it comes after and the others, in both lists.
      obtain ⟨m₁, m₂, hall', hrest', hbefore'⟩ := List.mergeSort_cons trans total a (l.filter p)
      have hafter : ∀ b ∈ l₂, le a b = true := by
        have hsorted := List.pairwise_mergeSort trans total (a :: l)
        rw [hall] at hsorted
        exact (List.pairwise_cons.mp (List.pairwise_append.mp hsorted).2.1).1
      have hafter' : ∀ b ∈ m₂, le a b = true := by
        have hsorted := List.pairwise_mergeSort trans total (a :: l.filter p)
        rw [hall'] at hsorted
        exact (List.pairwise_cons.mp (List.pairwise_append.mp hsorted).2.1).1
      obtain ⟨hfirst, hlast⟩ := eq_of_append_eq_append (fun b => !le a b)
        (fun b hb => hbefore b (List.mem_of_mem_filter hb))
        (fun b hb => by simp [hafter b (List.mem_of_mem_filter hb)]) hbefore'
        (fun b hb => by simp [hafter' b hb]) (ih.trans hrest')
      rw [List.filter_cons_of_pos ha, List.filter_cons_of_pos ha, hall', hfirst, hlast]
    · rw [List.filter_cons_of_neg ha, List.filter_cons_of_neg ha, ih]

theorem filter_mergeSort_of_tied (trans : ∀ a b c, le a b = true → le b c = true → le a c = true)
    (total : ∀ a b, (le a b || le b a) = true) {p : α → Bool}
    (hp : ∀ a b, p a = true → p b = true → le a b = true) (l : List α) :
    (l.mergeSort le).filter p = l.filter p := by
  rw [filter_mergeSort trans total]
  refine List.mergeSort_of_pairwise (List.pairwise_of_forall_mem_list fun a ha b hb => ?_)
  exact hp a b (List.mem_filter.mp ha).2 (List.mem_filter.mp hb).2

end Kept

section Key

variable {β : Type} [LE β] [DecidableLE β] [Std.IsLinearPreorder β] (key : α → β) (l : List α)

private theorem key_trans (a b c : α) (hab : decide (key a ≤ key b) = true)
    (hbc : decide (key b ≤ key c) = true) : decide (key a ≤ key c) = true :=
  decide_eq_true (Std.le_trans (of_decide_eq_true hab) (of_decide_eq_true hbc))

private theorem key_total (a b : α) :
    (decide (key a ≤ key b) || decide (key b ≤ key a)) = true := by
  rw [Bool.or_eq_true, decide_eq_true_eq, decide_eq_true_eq]
  exact Std.le_total

theorem pairwise_mergeSort_key :
    (l.mergeSort fun a b => key a ≤ key b).Pairwise fun a b => key a ≤ key b :=
  (List.pairwise_mergeSort (key_trans key) (key_total key) l).imp of_decide_eq_true

theorem filter_mergeSort_key [DecidableEq β] (k : β) :
    (l.mergeSort fun a b => key a ≤ key b).filter (key · = k) = l.filter (key · = k) := by
  refine filter_mergeSort_of_tied (key_trans key) (key_total key) ?_ l
  intro a b ha hb
  rw [of_decide_eq_true ha, of_decide_eq_true hb]
  exact decide_eq_true (Std.le_refl k)

theorem mergeSort_mergeSort_key :
    ((l.mergeSort fun a b => key a ≤ key b).mergeSort fun a b => key a ≤ key b) =
      l.mergeSort fun a b => key a ≤ key b :=
  List.mergeSort_of_pairwise (List.pairwise_mergeSort (key_trans key) (key_total key) l)

end Key

theorem nodup_eraseDups [BEq α] [LawfulBEq α] (xs : List α) : xs.eraseDups.Nodup := by
  -- What follows the first element is filtered before it is searched, so the length is what
  -- shrinks.
  induction hlength : xs.length using Nat.strongRecOn generalizing xs with
  | ind n ih =>
    cases xs with
    | nil => simp
    | cons x rest =>
      have hshorter : (rest.filter fun y => !y == x).length < n := by
        have hle := List.length_filter_le (fun y => !y == x) rest
        rw [List.length_cons] at hlength
        omega
      have hnew : x ∉ rest.filter fun y => !y == x := by simp
      rw [List.eraseDups_cons, List.nodup_cons, List.mem_eraseDups]
      exact ⟨hnew, ih _ hshorter _ rfl⟩

theorem eraseDups_of_nodup [BEq α] [LawfulBEq α] {xs : List α} (h : xs.Nodup) :
    xs.eraseDups = xs := by
  induction xs with
  | nil => rfl
  | cons x xs ih =>
    rw [List.nodup_cons] at h
    have hothers : xs.filter (fun y => !y == x) = xs := by
      rw [List.filter_eq_self]
      intro y hy
      simpa using fun heq : y = x => h.1 (heq ▸ hy)
    rw [List.eraseDups_cons, hothers, ih h.2]

theorem eraseDups_concat [BEq α] [LawfulBEq α] (xs : List α) (x : α) [Decidable (x ∈ xs)] :
    (xs ++ [x]).eraseDups = if x ∈ xs then xs.eraseDups else xs.eraseDups ++ [x] := by
  rw [List.eraseDups_append]
  split_ifs with hx
  · simp [List.removeAll, hx]
  · simp [List.removeAll, hx, List.eraseDups_cons]

end SuiteTidy.Order
