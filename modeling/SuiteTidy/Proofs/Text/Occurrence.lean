import SuiteTidy.Proofs.Suite.Scan
import Mathlib.Order.Bounds.Basic

/-!
Occurrences of a text in another, found from the left and without overlaps. A scan takes a text
apart into occurrences and single characters at which none starts. Counting them gives the most
occurrences that can be picked without sharing a character, and adds up over the parts of a text on
both sides of a character that is in no occurrence. Replacing them leaves none, and replacements
that stay clear of each other can be made in any order.
-/

set_option autoImplicit false
set_option relaxedAutoImplicit false

namespace SuiteTidy.Text

open SuiteTidy.Suite (startsWith_iff prefix_of_append_cons)

variable {p q new new' cs xs ys : List Char} {c mark : Char}

/-! The scan. -/

private theorem length_lt_append (hp : p ≠ []) (cs : List Char) :
    cs.length < (p ++ cs).length := by
  rw [List.length_append]
  exact Nat.lt_add_of_pos_left (List.length_pos_of_ne_nil hp)

/-- What holds at the end of a text, before an occurrence and before a character at which none
starts holds of every text. -/
@[elab_as_elim]
theorem scan_induction {motive : List Char → Prop} (hp : p ≠ []) (nil : motive [])
    (found : ∀ cs, motive cs → motive (p ++ cs))
    (next : ∀ c cs, ¬p <+: c :: cs → motive cs → motive (c :: cs)) (cs : List Char) :
    motive cs := by
  induction hlength : cs.length using Nat.strong_induction_on generalizing cs with
  | h n ih =>
    subst hlength
    by_cases hstart : p <+: cs
    · obtain ⟨rest, rfl⟩ := hstart
      exact found rest (ih _ (length_lt_append hp rest) rest rfl)
    · cases cs with
      | nil => exact nil
      | cons c cs => exact next c cs hstart (ih _ (Nat.lt_succ_self _) cs rfl)

/-! Counting. -/

private theorem countFrom_eq_drop (p : List Char) (skip : Nat) (cs : List Char) :
    countFrom p skip cs = countOf p (cs.drop skip) := by
  induction cs generalizing skip with
  | nil =>
    rw [List.drop_nil]
    cases skip <;> rfl
  | cons c cs ih =>
    cases skip with
    | zero => rfl
    | succ skip => exact ih skip

@[simp]
theorem countOf_nil (p : List Char) : countOf p [] = 0 := rfl

private theorem countOf_append_self (hp : p ≠ []) (cs : List Char) :
    countOf p (p ++ cs) = countOf p cs + 1 := by
  obtain ⟨a, p, rfl⟩ := List.exists_cons_of_ne_nil hp
  have hstart : startsWith (a :: (p ++ cs)) (a :: p) = true :=
    startsWith_iff.mpr (List.prefix_append (a :: p) cs)
  rw [List.cons_append, countOf, countFrom, if_pos hstart, countFrom_eq_drop, List.length_cons,
    Nat.add_sub_cancel, List.drop_left, Nat.add_comm]

private theorem countOf_cons_of_not_starts (h : ¬p <+: c :: cs) :
    countOf p (c :: cs) = countOf p cs := by
  rw [countOf, countFrom, if_neg fun hstart => h (startsWith_iff.mp hstart)]
  rfl

theorem countOf_append_cons (hp : p ≠ []) (hc : c ∉ p) (xs ys : List Char) :
    countOf p (xs ++ c :: ys) = countOf p xs + countOf p ys := by
  induction xs using scan_induction hp with
  | nil =>
    have hhead : ¬p <+: c :: ys := fun h => hp (List.prefix_nil.mp (prefix_of_append_cons hc h))
    rw [List.nil_append, countOf_cons_of_not_starts hhead, countOf_nil, Nat.zero_add]
  | found xs ih =>
    rw [List.append_assoc, countOf_append_self hp, countOf_append_self hp, ih]
    omega
  | next x xs hx ih =>
    have hstart : ¬p <+: x :: (xs ++ c :: ys) := fun h => hx (prefix_of_append_cons hc h)
    rw [List.cons_append, countOf_cons_of_not_starts hstart, countOf_cons_of_not_starts hx, ih]

/-- A way to pick a number of occurrences of `p` in a text of which no two share a character. -/
inductive Picks (p : List Char) : Nat → List Char → Prop
  | stop (cs : List Char) : Picks p 0 cs
  | pass {n : Nat} {cs : List Char} (c : Char) (h : Picks p n cs) : Picks p n (c :: cs)
  | pick {n : Nat} {cs : List Char} (h : Picks p n cs) : Picks p (n + 1) (p ++ cs)

private theorem countOf_drop (hp : p ≠ []) {k : Nat} (hk : k ≤ p.length) (cs : List Char) :
    countOf p (cs.drop k) ≤ countOf p cs ∧ countOf p cs ≤ countOf p (cs.drop k) + 1 := by
  induction hlength : cs.length using Nat.strong_induction_on generalizing cs k with
  | h n ih =>
    subst hlength
    cases k with
    | zero => exact ⟨Nat.le_refl _, Nat.le_succ _⟩
    | succ k =>
      cases cs with
      | nil => simp
      | cons c cs =>
        by_cases hstart : p <+: c :: cs
        · -- The rest after the occurrence is also a rest of what is left after the cut.
          obtain ⟨rest, hrest⟩ := hstart
          have hcut : ((c :: cs).drop (k + 1)).drop (p.length - (k + 1)) = rest := by
            rw [List.drop_drop, Nat.add_sub_cancel' hk, ← hrest, List.drop_left]
          have hleft := ih _ (by rw [List.length_drop, List.length_cons]; omega)
            (Nat.sub_le p.length (k + 1)) ((c :: cs).drop (k + 1)) rfl
          rw [hcut] at hleft
          have hwhole : countOf p (c :: cs) = countOf p rest + 1 := by
            rw [← hrest, countOf_append_self hp]
          omega
        · rw [countOf_cons_of_not_starts hstart, List.drop_succ_cons]
          exact ih _ (Nat.lt_succ_self _) (Nat.le_of_succ_le hk) cs rfl

private theorem picks_countOf (hp : p ≠ []) (cs : List Char) : Picks p (countOf p cs) cs := by
  induction cs using scan_induction hp with
  | nil => exact .stop []
  | found cs ih =>
    rw [countOf_append_self hp]
    exact .pick ih
  | next c cs hc ih =>
    rw [countOf_cons_of_not_starts hc]
    exact .pass c ih

private theorem Picks.le_countOf (hp : p ≠ []) {n : Nat} (h : Picks p n cs) : n ≤ countOf p cs := by
  induction h with
  | stop cs => exact Nat.zero_le _
  | pass c h ih => exact ih.trans (countOf_drop hp (List.length_pos_of_ne_nil hp) (c :: _)).1
  | pick h ih =>
    rw [countOf_append_self hp]
    exact Nat.succ_le_succ ih

/-- The scan from the left finds as many occurrences as can be picked at all. -/
theorem isGreatest_countOf (hp : p ≠ []) (cs : List Char) :
    IsGreatest {n | Picks p n cs} (countOf p cs) :=
  ⟨picks_countOf hp cs, fun _ h => h.le_countOf hp⟩

/-! Replacing. -/

private theorem replaceFrom_eq_drop (p new : List Char) (skip : Nat) (cs : List Char) :
    replaceFrom p new skip cs = replaceAll p new (cs.drop skip) := by
  induction cs generalizing skip with
  | nil =>
    rw [List.drop_nil]
    cases skip <;> rfl
  | cons c cs ih =>
    cases skip with
    | zero => rfl
    | succ skip => exact ih skip

@[simp]
theorem replaceAll_nil (p new : List Char) : replaceAll p new [] = [] := rfl

private theorem replaceAll_append_self (hp : p ≠ []) (new cs : List Char) :
    replaceAll p new (p ++ cs) = new ++ replaceAll p new cs := by
  obtain ⟨a, p, rfl⟩ := List.exists_cons_of_ne_nil hp
  have hstart : startsWith (a :: (p ++ cs)) (a :: p) = true :=
    startsWith_iff.mpr (List.prefix_append (a :: p) cs)
  rw [List.cons_append, replaceAll, replaceFrom, if_pos hstart, replaceFrom_eq_drop,
    List.length_cons, Nat.add_sub_cancel, List.drop_left]

private theorem replaceAll_cons_of_not_starts (new : List Char) (h : ¬p <+: c :: cs) :
    replaceAll p new (c :: cs) = c :: replaceAll p new cs := by
  rw [replaceAll, replaceFrom, if_neg fun hstart => h (startsWith_iff.mp hstart)]
  rfl

private theorem mem_replaceFrom {skip : Nat} {x : Char} (h : x ∈ replaceFrom p new skip cs) :
    x ∈ cs ∨ x ∈ new := by
  induction cs generalizing skip with
  | nil => cases skip <;> cases h
  | cons c cs ih =>
    cases skip with
    | succ skip => exact (ih h).imp_left (List.mem_cons_of_mem c)
    | zero =>
      rw [replaceFrom] at h
      split_ifs at h
      · rcases List.mem_append.mp h with hnew | hlater
        · exact .inr hnew
        · exact (ih hlater).imp_left (List.mem_cons_of_mem c)
      · rcases List.mem_cons.mp h with rfl | hlater
        · exact .inl List.mem_cons_self
        · exact (ih hlater).imp_left (List.mem_cons_of_mem c)

theorem mem_replaceAll {x : Char} (h : x ∈ replaceAll p new cs) : x ∈ cs ∨ x ∈ new :=
  mem_replaceFrom h

theorem replaceAll_eq_self (hp : p ≠ []) (new : List Char) (h : ¬p <:+: cs) :
    replaceAll p new cs = cs := by
  induction cs using scan_induction hp with
  | nil => rfl
  | found cs ih => exact absurd (List.prefix_append p cs).isInfix h
  | next c cs hc ih =>
    have hrest : ¬p <:+: cs := fun hmem => h (List.infix_cons hmem)
    rw [replaceAll_cons_of_not_starts new hc, ih hrest]

/-- No occurrence of `p` starts in a text, whatever follows the text. -/
def StaysClear (p xs : List Char) : Prop :=
  ∀ rest ∈ xs.tails, rest ≠ [] → ¬p <+: rest ∧ ¬rest <+: p

instance (p xs : List Char) : Decidable (StaysClear p xs) :=
  inferInstanceAs (Decidable (∀ rest ∈ xs.tails, _))

theorem StaysClear.tail (h : StaysClear p (c :: xs)) : StaysClear p xs := by
  intro rest hrest
  exact h rest (by simp [hrest])

private theorem StaysClear.not_starts (h : StaysClear p (c :: xs)) (ys : List Char) :
    ¬p <+: c :: (xs ++ ys) := by
  have hclear := h (c :: xs) (by simp) (List.cons_ne_nil c xs)
  intro hstart
  -- Of two texts that both start a third, one starts the other.
  have hwhole : c :: xs <+: c :: (xs ++ ys) := List.prefix_append (c :: xs) ys
  rcases List.prefix_or_prefix_of_prefix hstart hwhole with hp | hxs
  · exact hclear.1 hp
  · exact hclear.2 hxs

private theorem replaceAll_append_of_staysClear (h : StaysClear p xs) (new ys : List Char) :
    replaceAll p new (xs ++ ys) = xs ++ replaceAll p new ys := by
  induction xs with
  | nil => rfl
  | cons c xs ih =>
    rw [List.cons_append, replaceAll_cons_of_not_starts new (h.not_starts ys), ih h.tail,
      List.cons_append]

private theorem infix_append_of_staysClear (h : StaysClear p xs) (hp : p <:+: xs ++ ys) :
    p <:+: ys := by
  induction xs with
  | nil => exact hp
  | cons c xs ih =>
    rcases List.infix_cons_iff.mp hp with hstart | hrest
    · exact absurd hstart (h.not_starts ys)
    · exact ih h.tail hrest

/-- A text and what takes its place: both start with a mark, which the text has nowhere else. -/
structure Marked (mark : Char) (p new : List Char) : Prop where
  head : p.head? = some mark
  once : mark ∉ p.tail
  newHead : new.head? = some mark

theorem Marked.ne_nil (h : Marked mark p new) : p ≠ [] := by
  rintro rfl
  cases h.head

private theorem prefix_replaceAll_iff (h : Marked mark p new) {front : List Char}
    (hfront : mark ∉ front) : front <+: replaceAll p new cs ↔ front <+: cs := by
  induction cs using scan_induction h.ne_nil generalizing front with
  | nil => rfl
  | found cs ih =>
    obtain ⟨rest, rfl⟩ := List.head?_eq_some_iff.mp h.head
    obtain ⟨more, rfl⟩ := List.head?_eq_some_iff.mp h.newHead
    rw [replaceAll_append_self (List.cons_ne_nil mark rest)]
    cases front with
    | nil => simp
    | cons a front =>
      have ha : a ≠ mark := fun heq => hfront (by simp [heq])
      simp [ha]
  | next c cs hc ih =>
    rw [replaceAll_cons_of_not_starts new hc]
    cases front with
    | nil => simp
    | cons a front =>
      rw [List.cons_prefix_cons, List.cons_prefix_cons,
        ih fun hmem => hfront (List.mem_cons_of_mem a hmem)]

/-- A replacement does not make an occurrence that starts with a character it has passed. -/
private theorem prefix_cons_replaceAll_iff (h : Marked mark p new) (hq : Marked mark q new') :
    q <+: c :: replaceAll p new cs ↔ q <+: c :: cs := by
  obtain ⟨rest, rfl⟩ := List.head?_eq_some_iff.mp hq.head
  have hrest : mark ∉ rest := hq.once
  rw [List.cons_prefix_cons, List.cons_prefix_cons, prefix_replaceAll_iff h hrest]

theorem not_infix_replaceAll (h : Marked mark p new) (hnew : StaysClear p new) (cs : List Char) :
    ¬p <:+: replaceAll p new cs := by
  induction cs using scan_induction h.ne_nil with
  | nil =>
    rw [replaceAll_nil, List.infix_nil]
    exact h.ne_nil
  | found cs ih =>
    rw [replaceAll_append_self h.ne_nil]
    exact fun hmem => ih (infix_append_of_staysClear hnew hmem)
  | next c cs hc ih =>
    rw [replaceAll_cons_of_not_starts new hc, List.infix_cons_iff, prefix_cons_replaceAll_iff h h]
    exact not_or.mpr ⟨hc, ih⟩

theorem replaceAll_comm (hp : Marked mark p new) (hq : Marked mark q new')
    (hpq : StaysClear p q ∧ StaysClear p new') (hqp : StaysClear q p ∧ StaysClear q new)
    (cs : List Char) :
    replaceAll q new' (replaceAll p new cs) = replaceAll p new (replaceAll q new' cs) := by
  induction hlength : cs.length using Nat.strong_induction_on generalizing cs with
  | h n ih =>
    subst hlength
    by_cases hstart : p <+: cs
    · obtain ⟨rest, rfl⟩ := hstart
      rw [replaceAll_append_self hp.ne_nil, replaceAll_append_of_staysClear hqp.2,
        replaceAll_append_of_staysClear hqp.1, replaceAll_append_self hp.ne_nil,
        ih _ (length_lt_append hp.ne_nil rest) rest rfl]
    · by_cases hother : q <+: cs
      · obtain ⟨rest, rfl⟩ := hother
        rw [replaceAll_append_self hq.ne_nil, replaceAll_append_of_staysClear hpq.2,
          replaceAll_append_of_staysClear hpq.1, replaceAll_append_self hq.ne_nil,
          ih _ (length_lt_append hq.ne_nil rest) rest rfl]
      · cases cs with
        | nil => rfl
        | cons c cs =>
          have hpass : ¬q <+: c :: replaceAll p new cs := by
            rwa [prefix_cons_replaceAll_iff hp hq]
          have hpass' : ¬p <+: c :: replaceAll q new' cs := by
            rwa [prefix_cons_replaceAll_iff hq hp]
          rw [replaceAll_cons_of_not_starts new hstart, replaceAll_cons_of_not_starts new' hpass,
            replaceAll_cons_of_not_starts new' hother, replaceAll_cons_of_not_starts new hpass',
            ih _ (Nat.lt_succ_self _) cs rfl]

end SuiteTidy.Text
