import Mathlib.Data.List.Forall2
import Mathlib.Data.List.Nodup

/-!
Lists that are walked through step by step, counted by class, and picked from. The results of a walk
are those of its steps, in order.
-/

set_option autoImplicit false
set_option relaxedAutoImplicit false

namespace SuiteTidy.Lists

variable {α β γ ε : Type}

/-! Walks that a fault can end. -/

section Walks

variable {f : α → Except ε β} {xs : List α} {ys : List β}

theorem mapM_eq_ok_iff :
    xs.mapM f = .ok ys ↔ List.Forall₂ (fun x y => f x = .ok y) xs ys := by
  induction xs generalizing ys with
  | nil =>
    rw [List.mapM_nil, List.forall₂_nil_left_iff]
    exact ⟨fun h => (Except.ok.inj h).symm, fun h => congrArg Except.ok h.symm⟩
  | cons x xs ih =>
    rw [List.mapM_cons, List.forall₂_cons_left_iff]
    constructor
    · intro h
      cases hfirst : f x with
      | error e =>
        rw [hfirst] at h
        cases h
      | ok y =>
        rw [hfirst] at h
        cases hothers : xs.mapM f with
        | error e =>
          rw [hothers] at h
          cases h
        | ok rest =>
          rw [hothers] at h
          exact ⟨y, rest, rfl, ih.mp hothers, (Except.ok.inj h).symm⟩
    · rintro ⟨y, rest, hfirst, hothers, rfl⟩
      rw [hfirst, ih.mpr hothers]
      rfl

theorem exists_of_mapM_eq_ok (h : xs.mapM f = .ok ys) {x : α} (hx : x ∈ xs) :
    ∃ y ∈ ys, f x = .ok y := by
  have hall := mapM_eq_ok_iff.mp h
  clear h
  induction hall with
  | nil => cases hx
  | cons hfirst _ ih =>
    rcases List.mem_cons.mp hx with rfl | hx
    · exact ⟨_, List.mem_cons_self, hfirst⟩
    · obtain ⟨y, hy, hstep⟩ := ih hx
      exact ⟨y, List.mem_cons_of_mem _ hy, hstep⟩

theorem exists_mapM_eq_ok (h : ∀ x ∈ xs, ∃ y, f x = .ok y) : ∃ ys, xs.mapM f = .ok ys := by
  simp only [mapM_eq_ok_iff]
  induction xs with
  | nil => exact ⟨[], .nil⟩
  | cons x xs ih =>
    rw [List.forall_mem_cons] at h
    obtain ⟨y, hy⟩ := h.1
    obtain ⟨ys, hys⟩ := ih h.2
    exact ⟨y :: ys, .cons hy hys⟩

theorem mapM_eq_ok_map {g : α → β} (h : ∀ x ∈ xs, f x = .ok (g x)) :
    xs.mapM f = .ok (xs.map g) :=
  mapM_eq_ok_iff.mpr (List.forall₂_map_right_iff.mpr (List.forall₂_same.mpr h))

theorem mapM_map_eq_ok {g : β → α} (h : ∀ y ∈ ys, f (g y) = .ok y) : (ys.map g).mapM f = .ok ys :=
  mapM_eq_ok_iff.mpr (List.forall₂_map_left_iff.mpr (List.forall₂_same.mpr h))

theorem exists_foldlM_eq_ok {step : β → α → Except ε β}
    (h : ∀ b, ∀ x ∈ xs, ∃ b', step b x = .ok b') (start : β) :
    ∃ b, xs.foldlM step start = .ok b := by
  induction xs generalizing start with
  | nil => exact ⟨start, rfl⟩
  | cons x xs ih =>
    obtain ⟨next, hnext⟩ := h start x List.mem_cons_self
    obtain ⟨b, hb⟩ := ih (fun b y hy => h b y (List.mem_cons_of_mem x hy)) next
    refine ⟨b, ?_⟩
    rw [List.foldlM_cons, hnext]
    exact hb

private theorem filterAuxM_eq_ok {keep : α → Except ε Bool} {p : α → Bool}
    (h : ∀ x ∈ xs, keep x = .ok (p x)) (kept : List α) :
    xs.filterAuxM keep kept = .ok ((xs.filter p).reverse ++ kept) := by
  induction xs generalizing kept with
  | nil => rfl
  | cons x xs ih =>
    rw [List.forall_mem_cons] at h
    change (keep x >>= fun b => xs.filterAuxM keep (bif b then x :: kept else kept)) = _
    rw [h.1]
    change xs.filterAuxM keep (bif p x then x :: kept else kept) = _
    rw [ih h.2]
    cases hx : p x <;> simp [hx]

theorem filterM_eq_ok_filter {keep : α → Except ε Bool} {p : α → Bool}
    (h : ∀ x ∈ xs, keep x = .ok (p x)) : xs.filterM keep = .ok (xs.filter p) := by
  change (xs.filterAuxM keep [] >>= fun kept => pure kept.reverse) = _
  rw [filterAuxM_eq_ok h]
  change Except.ok _ = _
  simp

end Walks

/-! Counting by class. -/

theorem countP_add_countP {p q : α → Bool} (h : ∀ x, p x = true → q x = false) (xs : List α) :
    xs.countP p + xs.countP q = xs.countP fun x => p x || q x := by
  induction xs with
  | nil => rfl
  | cons x xs ih =>
    rw [List.countP_cons, List.countP_cons, List.countP_cons, ← ih]
    cases hp : p x with
    | true =>
      rw [h x hp]
      simp only [Bool.true_or, if_true, Bool.false_eq_true, if_false]
      omega
    | false =>
      simp only [Bool.false_or, Bool.false_eq_true, if_false]
      omega

theorem foldr_countP [DecidableEq β] {classes : List β} (h : classes.Nodup) (f : α → β)
    (xs : List α) :
    (classes.map fun b => xs.countP fun x => f x == b).foldr (· + ·) 0 =
      xs.countP fun x => decide (f x ∈ classes) := by
  induction classes with
  | nil => simp
  | cons b classes ih =>
    obtain ⟨hb, hrest⟩ := List.nodup_cons.mp h
    have hapart : ∀ x, (f x == b) = true → decide (f x ∈ classes) = false := by
      intro x hx
      rw [beq_iff_eq.mp hx]
      exact decide_eq_false hb
    rw [List.map_cons, List.foldr_cons, ih hrest, countP_add_countP hapart]
    refine List.countP_congr fun x _ => ?_
    simp

/-! Two ways to map or to pick. -/

theorem nodup_map_iff {f : α → β} {g : α → γ} {xs : List α}
    (h : ∀ a ∈ xs, ∀ b ∈ xs, (f a = f b ↔ g a = g b)) : (xs.map f).Nodup ↔ (xs.map g).Nodup := by
  rw [List.Nodup, List.Nodup, List.pairwise_map, List.pairwise_map]
  exact List.Pairwise.iff_of_mem fun {a b} ha hb => not_congr (h a ha b hb)

/-- Two ways to pick something for each item, of which the second picks wherever the first does and
the same there, pick the same list only if they never differ. -/
theorem filterMap_eq_iff {f g : α → Option β} {xs : List α}
    (h : ∀ x ∈ xs, ∀ y, f x = some y → g x = some y) :
    (xs.filterMap f).length ≤ (xs.filterMap g).length ∧
      (xs.filterMap f = xs.filterMap g ↔ ∀ x ∈ xs, f x = none → g x = none) := by
  induction xs with
  | nil => simp
  | cons x xs ih =>
    rw [List.forall_mem_cons] at h
    obtain ⟨hle, hiff⟩ := ih h.2
    rw [List.filterMap_cons, List.filterMap_cons, List.forall_mem_cons]
    cases hf : f x with
    | some y =>
      rw [h.1 y hf]
      simpa using ⟨hle, hiff⟩
    | none =>
      cases hg : g x with
      | none => simpa using ⟨hle, hiff⟩
      | some y =>
        refine ⟨by simp; omega, ?_⟩
        constructor
        · intro hsame
          have hlength := congrArg List.length hsame
          simp at hlength
          omega
        · rintro ⟨hnone, -⟩
          simp at hnone

end SuiteTidy.Lists
