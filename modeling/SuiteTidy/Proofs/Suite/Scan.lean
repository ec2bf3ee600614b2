import SuiteTidy.Suite.Block
import Mathlib.Data.List.Infix

/-!
How a scan goes through the lines of a suite. A call with a quoted label is found behind any text
that cannot start it. A block whose lines are enclosed by a pair of braces ends where the pair does,
whatever follows, so that the scan of lines written one after another is the scan of each of them.
-/

set_option autoImplicit false
set_option relaxedAutoImplicit false

namespace SuiteTidy.Suite

open SuiteTidy.Text

/-! Texts that occur in others. -/

theorem startsWith_iff {cs p : List Char} : startsWith cs p = true ↔ p <+: cs := by
  induction p generalizing cs with
  | nil => cases cs <;> simp [startsWith]
  | cons a p ih =>
    cases cs with
    | nil => simp [startsWith]
    | cons c cs =>
      simp only [startsWith, Bool.and_eq_true, beq_iff_eq, ih, List.cons_prefix_cons]
      exact and_congr_left fun _ => eq_comm

theorem occurs_iff {p cs : List Char} : occurs p cs = true ↔ p <:+: cs := by
  induction cs with
  | nil => simp [occurs]
  | cons c cs ih =>
    simp only [occurs, Bool.or_eq_true, startsWith_iff, ih, List.infix_cons_iff]

theorem hasText_iff {line word : String} :
    hasText line word = true ↔ word.toList <:+: line.toList := occurs_iff

theorem hasText_eq_false_of_not_mem {line word : String} {c : Char} (hword : c ∈ word.toList)
    (hline : c ∉ line.toList) : hasText line word = false := by
  rw [Bool.eq_false_iff, ne_eq, hasText_iff]
  exact fun h => hline (h.subset hword)

theorem prefix_of_append_cons {p xs ys : List Char} {c : Char} (hc : c ∉ p)
    (h : p <+: xs ++ c :: ys) : p <+: xs := by
  induction xs generalizing p with
  | nil =>
    cases p with
    | nil => exact List.nil_prefix
    | cons a p =>
      have ha : a = c := (List.cons_prefix_cons.mp h).1
      exact absurd (by simp [ha]) hc
  | cons x xs ih =>
    cases p with
    | nil => exact List.nil_prefix
    | cons a p =>
      obtain ⟨hx, hp⟩ := List.cons_prefix_cons.mp h
      exact List.cons_prefix_cons.mpr ⟨hx, ih (fun hmem => hc (List.mem_cons_of_mem _ hmem)) hp⟩

theorem subset_of_mem_splitOn {sep : Char} {cs piece : List Char} (h : piece ∈ cs.splitOn sep) :
    piece ⊆ cs := by
  induction cs generalizing piece with
  | nil =>
    obtain rfl : piece = [] := by simpa using h
    exact List.nil_subset _
  | cons x cs ih =>
    obtain ⟨first, others, hsplit⟩ := List.exists_cons_of_ne_nil (List.splitOn_ne_nil sep cs)
    rw [List.splitOn_cons_eq_if_modifyHead, hsplit] at h
    rw [hsplit] at ih
    split_ifs at h
    · rcases List.mem_cons.mp h with rfl | hlater
      · exact List.nil_subset _
      · exact List.subset_cons_of_subset x (ih hlater)
    · rcases List.mem_cons.mp h with rfl | hlater
      · exact List.cons_subset_cons x (ih List.mem_cons_self)
      · exact List.subset_cons_of_subset x (ih (List.mem_cons_of_mem _ hlater))

/-- A text without some character occurs on one side of that character. -/
theorem infix_of_append_cons {p xs ys : List Char} {c : Char} (hc : c ∉ p)
    (h : p <:+: xs ++ c :: ys) : p <:+: xs ∨ p <:+: ys := by
  induction xs with
  | nil =>
    rcases List.infix_cons_iff.mp h with hprefix | hinfix
    · have hnil : p <+: [] := prefix_of_append_cons hc hprefix
      exact Or.inl hnil.isInfix
    · exact Or.inr hinfix
  | cons x xs ih =>
    rcases List.infix_cons_iff.mp h with hprefix | hinfix
    · have hcons : p <+: x :: xs := prefix_of_append_cons hc hprefix
      exact Or.inl hcons.isInfix
    · exact (ih hinfix).imp_left fun hxs => List.infix_cons hxs

/-! The labels of calls. -/

theorem afterStart?_eq_some_iff {cs p rest : List Char} :
    afterStart? cs p = some rest ↔ cs = p ++ rest := by
  induction p generalizing cs with
  | nil => cases cs <;> simp [afterStart?]
  | cons a p ih =>
    cases cs with
    | nil => simp [afterStart?]
    | cons c cs => by_cases hc : c = a <;> simp [afterStart?, hc, ih]

private theorem callLabel?_skip {p : Char} {ps pad : List Char} (hpad : p ∉ pad)
    (rest : List Char) : callLabel? (p :: ps) (pad ++ rest) = callLabel? (p :: ps) rest := by
  induction pad with
  | nil => rfl
  | cons c pad ih =>
    simp only [List.mem_cons, not_or] at hpad
    have hne : ¬ c = p := fun h => hpad.1 h.symm
    simp only [List.cons_append, callLabel?, afterStart?, if_neg hne, Option.bind_none]
    exact ih hpad.2

private theorem commaFollows_comma (rest : List Char) : commaFollows (',' :: rest) = true := by
  have hcomma : isBlank ',' = false := by decide
  simp [commaFollows, trimLeft, List.dropWhile, hcomma]

private theorem labelFrom_append {name : List Char} (hname : ∀ c ∈ name, isQuote c = false)
    {acc : List Char} (hacc : acc ≠ []) (rest : List Char) :
    labelFrom acc (name ++ '\'' :: ',' :: rest) = some (acc.reverse ++ name) := by
  induction name generalizing acc with
  | nil =>
    obtain ⟨a, acc, rfl⟩ := List.exists_cons_of_ne_nil hacc
    have hquote : isQuote '\'' = true := by decide
    simp [labelFrom, commaFollows_comma, hquote]
  | cons c name ih =>
    obtain ⟨a, acc, rfl⟩ := List.exists_cons_of_ne_nil hacc
    have hc : isQuote c = false := hname c (by simp)
    simp only [List.cons_append, labelFrom, hc, Bool.false_and]
    rw [if_neg (by simp), ih (fun x hx => hname x (by simp [hx])) (by simp)]
    simp

theorem callLabel?_call {p : Char} {ps pad name : List Char} (hpad : p ∉ pad) (hne : name ≠ [])
    (hname : ∀ c ∈ name, isQuote c = false) (rest : List Char) :
    callLabel? (p :: ps) (pad ++ (p :: ps ++ '\'' :: (name ++ '\'' :: ',' :: rest))) =
      some name := by
  obtain ⟨c, name, rfl⟩ := List.exists_cons_of_ne_nil hne
  have hlabel : label? ('\'' :: (c :: name ++ '\'' :: ',' :: rest)) = some (c :: name) := by
    have hquote : isQuote '\'' = true := by decide
    have htail : labelFrom [c] (name ++ '\'' :: ',' :: rest) = some ([c].reverse ++ name) :=
      labelFrom_append (fun x hx => hname x (List.mem_cons_of_mem c hx)) (by simp) rest
    simpa [label?, labelFrom, hquote] using htail
  rw [callLabel?_skip hpad, List.cons_append, callLabel?, ← List.cons_append,
    afterStart?_eq_some_iff.mpr rfl, Option.bind_some, hlabel]

theorem infix_of_callLabel?_eq_some {word cs name : List Char}
    (h : callLabel? word cs = some name) : word <:+: cs := by
  induction cs with
  | nil => cases h
  | cons c cs ih =>
    rw [callLabel?] at h
    cases hstart : afterStart? (c :: cs) word with
    | none =>
      rw [hstart, Option.bind_none] at h
      exact List.infix_cons (ih h)
    | some rest => exact ⟨[], rest, (afterStart?_eq_some_iff.mp hstart).symm⟩

private theorem callLabel?_eq_none_of_not_mem {word cs : List Char} {c : Char} (hword : c ∈ word)
    (hcs : c ∉ cs) : callLabel? word cs = none := by
  rw [Option.eq_none_iff_forall_ne_some]
  intro name hname
  exact hcs ((infix_of_callLabel?_eq_some hname).subset hword)

private theorem hookIn?_eq_none_of_not_mem {cs : List Char} (hcs : '(' ∉ cs) :
    hookIn? cs = none := by
  induction cs with
  | nil => rfl
  | cons x cs ih =>
    have hfind : (Hook.all.find? fun h => startsWith (x :: cs) (h.name ++ "(").toList) = none := by
      rw [List.find?_eq_none]
      intro h _ hstart
      exact hcs ((startsWith_iff.mp hstart).subset (by simp))
    rw [hookIn?, hfind]
    exact ih fun hmem => hcs (List.mem_cons_of_mem x hmem)

theorem opensAtTop_eq_none_of_not_mem {line : String} (h : '(' ∉ line.toList) :
    opensAtTop line = none := by
  have hdescribe : callLabel? "describe(".toList line.toList = none :=
    callLabel?_eq_none_of_not_mem (by decide) h
  have htest : callLabel? "it(".toList line.toList = none :=
    callLabel?_eq_none_of_not_mem (by decide) h
  have hhook : hookIn? line.toList = none := hookIn?_eq_none_of_not_mem h
  simp only [opensAtTop, describeOpening?, describeName?, testOpening?, testName?, hookOpening?,
    hook?, hdescribe, htest, hhook, Option.map_none, Option.or_none, ite_self]

theorem trim_prefix_trimLeft (cs : List Char) : trim cs <+: trimLeft cs := by
  rw [trim, trimRight, ← List.reverse_suffix, List.reverse_reverse]
  exact List.dropWhile_suffix isBlank

theorem isCommentLine_eq_false {line : String} {c : Char} {cs : List Char}
    (hline : line.toList = c :: cs) (hblank : isBlank c = false) (hslash : c ≠ '/') :
    isCommentLine line = false := by
  rw [Bool.eq_false_iff, ne_eq, isCommentLine, startsWith_iff]
  intro hprefix
  have htrim : trimLeft line.toList = c :: cs := by
    simp [trimLeft, hline, hblank]
  have hstart := hprefix.trans (trim_prefix_trimLeft line.toList)
  rw [htrim, List.cons_prefix_cons] at hstart
  exact hslash hstart.1.symm

/-! Where blocks end. -/

private theorem spanFrom_pass {balance after : Int} {opened : Bool} {line : String}
    {rest : List String} (hafter : balance + opens line - closes line = after)
    (hopened : (opened || decide (0 < opens line)) = true) (hne : after ≠ 0) (hrest : rest ≠ []) :
    spanFrom balance opened (line :: rest) = spanFrom after true rest + 1 := by
  obtain ⟨next, rest, rfl⟩ := List.exists_cons_of_ne_nil hrest
  simp [spanFrom, hafter, hopened, hne]

/-- Lines that a block runs through: wherever a brace is open in front of them, they are passed and
the balance behind them is the same. -/
def Steady (ls : List String) : Prop :=
  ∀ (balance : Int) (rest : List String), 0 < balance → rest ≠ [] →
    spanFrom balance true (ls ++ rest) = spanFrom balance true rest + ls.length

theorem Steady.nil : Steady [] := by
  intro balance rest _ _
  rfl

theorem Steady.append {xs ys : List String} (hx : Steady xs) (hy : Steady ys) :
    Steady (xs ++ ys) := by
  intro balance rest hbalance hrest
  rw [List.append_assoc, hx balance _ hbalance (by simp [hrest]), hy balance rest hbalance hrest,
    List.length_append]
  omega

theorem Steady.line {line : String} (hopens : opens line = 0) (hcloses : closes line = 0) :
    Steady [line] := by
  intro balance rest hbalance hrest
  exact spanFrom_pass (by omega) rfl (by omega) hrest

/-- Lines of which the first opens a brace, the last closes it, and those between them are
steady. -/
structure Enclosed (first : String) (inner : List String) (last : String) : Prop where
  opens_first : opens first = 1
  closes_first : closes first = 0
  steady : Steady inner
  opens_last : opens last = 0
  closes_last : closes last = 1

section Enclosed

variable {first last : String} {inner : List String}

theorem Enclosed.steady_lines (h : Enclosed first inner last) :
    Steady (first :: inner ++ [last]) := by
  have ⟨hof, hcf, hinner, hol, hcl⟩ := h
  intro balance rest hbalance hrest
  have hfirst : spanFrom balance true (first :: (inner ++ last :: rest)) =
      spanFrom (balance + 1) true (inner ++ last :: rest) + 1 :=
    spanFrom_pass (by omega) rfl (by omega) (by simp)
  have hlast : spanFrom (balance + 1) true (last :: rest) = spanFrom balance true rest + 1 :=
    spanFrom_pass (by omega) rfl (by omega) hrest
  have hmid := hinner (balance + 1) (last :: rest) (by omega) (by simp)
  simp only [List.cons_append, List.append_assoc, List.nil_append, List.length_cons,
    List.length_append, List.length_nil]
  omega

theorem Enclosed.span_append (h : Enclosed first inner last) (rest : List String) :
    span (first :: inner ++ [last] ++ rest) = inner.length + 1 := by
  have ⟨hof, hcf, hinner, hol, hcl⟩ := h
  have hfirst : spanFrom 0 false (first :: (inner ++ last :: rest)) =
      spanFrom 1 true (inner ++ last :: rest) + 1 :=
    spanFrom_pass (by omega) (by simp [hof]) (by omega) (by simp)
  have hlast : spanFrom 1 true (last :: rest) = 0 := by
    cases rest with
    | nil => rfl
    | cons next rest => simp [spanFrom, hol, hcl]
  have hmid := hinner 1 (last :: rest) (by omega) (by simp)
  simp only [span, List.cons_append, List.append_assoc, List.nil_append]
  omega

end Enclosed

/-! What a scan finds. -/

/-- The blocks that `rule` finds in some lines are `found`, numbered from the place of the first
line, whatever follows. -/
def Finds (rule : String → Option Opening) (ls : List String) (found : Nat → List Block) : Prop :=
  ∀ (budget at_ : Nat) (rest : List String), ls.length ≤ budget →
    blocksIn rule budget at_ (ls ++ rest) =
      found at_ ++ blocksIn rule (budget - ls.length) (at_ + ls.length) rest

section Finds

variable {rule : String → Option Opening}

theorem Finds.nil : Finds rule [] fun _ => [] := by
  intro budget at_ rest _
  simp

theorem Finds.append {xs ys : List String} {f g : Nat → List Block} (hx : Finds rule xs f)
    (hy : Finds rule ys g) : Finds rule (xs ++ ys) fun at_ => f at_ ++ g (at_ + xs.length) := by
  intro budget at_ rest hbudget
  rw [List.length_append] at hbudget
  rw [List.append_assoc, hx budget at_ _ (by omega), hy _ _ rest (by omega), List.append_assoc,
    List.length_append, Nat.sub_add_eq, Nat.add_assoc]

theorem Finds.quiet {line : String} (h : rule line = none) : Finds rule [line] fun _ => [] := by
  intro budget at_ rest hbudget
  cases budget with
  | zero => simp at hbudget
  | succ budget => simp [blocksIn, h]

theorem Finds.quiet_lines {ls : List String} (h : ∀ l ∈ ls, rule l = none) :
    Finds rule ls fun _ => [] := by
  induction ls with
  | nil => exact Finds.nil
  | cons l ls ih =>
    have hl : Finds rule [l] fun _ => [] := Finds.quiet (h l (by simp))
    simpa using hl.append (ih fun x hx => h x (by simp [hx]))

def enclosedBlock (opening : Opening) (ls : List String) (children : List Block) (at_ : Nat) :
    Block :=
  { opening, start := at_, stop := at_ + (ls.length - 1), content := unlines ls, children }

theorem blocksIn_zero (at_ : Nat) (ls : List String) : blocksIn rule 0 at_ ls = [] := by
  cases ls <;> simp [blocksIn]

theorem Finds.block {first last : String} {inner : List String} {opening : Opening}
    {found : Nat → List Block} (henclosed : Enclosed first inner last)
    (hopens : rule first = some opening)
    (hchildren : ∀ at_ rest, (if opening.kind = .describe then
      blocksIn opensInside inner.length at_ (inner ++ rest) else []) = found at_) :
    Finds rule (first :: inner ++ [last]) fun at_ =>
      [enclosedBlock opening (first :: inner ++ [last]) (found (at_ + 1)) at_] := by
  intro budget at_ rest hbudget
  have hspan : span (first :: (inner ++ last :: rest)) = inner.length + 1 := by
    simpa using henclosed.span_append rest
  have htake : (inner ++ last :: rest).take (inner.length + 1) = inner ++ [last] := by
    simp [List.take_append, List.take_of_length_le]
  have hdrop : (inner ++ last :: rest).drop (inner.length + 1) = rest := by
    simp [List.drop_append, List.drop_of_length_le]
  have hlines : first :: inner ++ [last] ++ rest = first :: (inner ++ last :: rest) := by simp
  obtain ⟨budget, rfl⟩ : ∃ n, budget = n + 1 := ⟨budget - 1, by simp at hbudget; omega⟩
  rw [hlines, blocksIn]
  simp only [hopens, hspan, Nat.add_sub_cancel, hdrop, List.take_succ_cons, htake, hchildren,
    List.length_append, List.length_cons, List.length_nil, enclosedBlock, List.singleton_append]
  congr 2
  omega

theorem Finds.leaf {first last : String} {inner : List String} {opening : Opening}
    (henclosed : Enclosed first inner last) (hopens : rule first = some opening)
    (hkind : opening.kind ≠ .describe) :
    Finds rule (first :: inner ++ [last]) fun at_ =>
      [enclosedBlock opening (first :: inner ++ [last]) [] at_] :=
  Finds.block henclosed hopens fun _ _ => if_neg hkind

theorem Finds.group {first last : String} {inner : List String} {opening : Opening}
    {found : Nat → List Block} (henclosed : Enclosed first inner last)
    (hopens : rule first = some opening) (hkind : opening.kind = .describe)
    (hinner : Finds opensInside inner found) :
    Finds rule (first :: inner ++ [last]) fun at_ =>
      [enclosedBlock opening (first :: inner ++ [last]) (found (at_ + 1)) at_] := by
  refine Finds.block henclosed hopens fun at_ rest => ?_
  rw [if_pos hkind, hinner _ at_ rest le_rfl, Nat.sub_self, blocksIn_zero, List.append_nil]

end Finds
end SuiteTidy.Suite
