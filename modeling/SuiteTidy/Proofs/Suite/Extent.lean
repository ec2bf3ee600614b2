import SuiteTidy.Proofs.Suite.Scan
import Mathlib.Order.Bounds.Basic

/-!
Where the blocks of a text lie. A block runs to the first line by which its lines have closed as
many braces as they have opened, and at least one, or else to the end of the text. Main statement:
in every text, balanced or not, the blocks form a tree in which blocks beside each other are apart,
a block inside another starts between the first and the last line of that one, and no line outside
all blocks opens one.
-/

set_option autoImplicit false
set_option relaxedAutoImplicit false

namespace SuiteTidy.Suite

/-! Braces. -/

def tally (c : Char) (ls : List String) : Nat := (ls.flatMap String.toList).count c

def IsLevel (ls : List String) : Prop :=
  0 < tally '\x7b' ls ∧ tally '\x7b' ls = tally '\x7d' ls

theorem tally_cons (c : Char) (line : String) (ls : List String) :
    tally c (line :: ls) = line.toList.count c + tally c ls := by
  rw [tally, List.flatMap_cons, List.count_append, tally]

theorem tally_append (c : Char) (xs ys : List String) :
    tally c (xs ++ ys) = tally c xs + tally c ys := by
  rw [tally, List.flatMap_append, List.count_append, tally, tally]

/-- Lines after which a block is over, given the balance of braces in front of them and whether any
brace was opened there. -/
private def Settles (balance : Int) (opened : Bool) (ls : List String) : Prop :=
  (opened = true ∨ 0 < tally '\x7b' ls) ∧ balance + tally '\x7b' ls = tally '\x7d' ls

private theorem settles_cons_iff (balance : Int) (opened : Bool) (line : String)
    (ls : List String) :
    Settles balance opened (line :: ls) ↔
      Settles (balance + opens line - closes line) (opened || decide (0 < opens line)) ls := by
  rw [Settles, Settles, tally_cons, tally_cons, Bool.or_eq_true, decide_eq_true_eq]
  have hopens : line.toList.count '\x7b' = opens line := rfl
  have hcloses : line.toList.count '\x7d' = closes line := rfl
  rw [hopens, hcloses, or_assoc]
  refine and_congr (or_congr_right ?_) ?_
  · omega
  · omega

private theorem settles_nil_iff (balance : Int) (opened : Bool) :
    Settles balance opened [] ↔ (opened && balance == 0) = true := by
  simp [Settles, tally]

private theorem spanFrom_settles (balance : Int) (opened : Bool) {ls : List String}
    (hne : ls ≠ []) :
    spanFrom balance opened ls < ls.length ∧
      (∀ k < spanFrom balance opened ls, ¬Settles balance opened (ls.take (k + 1))) ∧
      (Settles balance opened (ls.take (spanFrom balance opened ls + 1)) ∨
        spanFrom balance opened ls + 1 = ls.length) := by
  induction ls generalizing balance opened with
  | nil => exact absurd rfl hne
  | cons line rest ih =>
    cases rest with
    | nil => simp [spanFrom]
    | cons next rest =>
      rw [spanFrom]
      · split_ifs with hover
        · refine ⟨by simp, fun k hk => absurd hk (Nat.not_lt_zero k), .inl ?_⟩
          rw [List.take_succ_cons, List.take_zero, settles_cons_iff, settles_nil_iff]
          exact hover
        · obtain ⟨hlt, hbefore, hend⟩ := ih (balance + opens line - closes line)
            (opened || decide (0 < opens line)) (by simp)
          refine ⟨by simp only [List.length_cons] at hlt ⊢; omega, fun k hk => ?_, ?_⟩
          · rw [List.take_succ_cons, settles_cons_iff]
            cases k with
            | zero => rwa [List.take_zero, settles_nil_iff]
            | succ k => exact hbefore k (by omega)
          · rw [List.take_succ_cons, settles_cons_iff]
            refine hend.imp_right fun hlast => ?_
            rw [hlast, List.length_cons (a := line)]
      · simp

/-! Lines of a text. -/

def between (lines : List String) (first last : Nat) : List String :=
  (lines.drop first).take (last + 1 - first)

/-- A block that starts on a line ends on another: the first by which its lines are level, or the
last of the text if they never are. -/
def EndsAt (lines : List String) (start stop : Nat) : Prop :=
  IsLeast {k | start ≤ k ∧ k < lines.length ∧ IsLevel (between lines start k)} stop ∨
    (∀ k, start ≤ k → k < lines.length → ¬IsLevel (between lines start k)) ∧
      stop + 1 = lines.length

private theorem settles_iff_isLevel (ls : List String) : Settles 0 false ls ↔ IsLevel ls := by
  rw [Settles, IsLevel]
  constructor
  · rintro ⟨hopened, hbalance⟩
    exact ⟨by simpa using hopened, by omega⟩
  · rintro ⟨hopened, hbalance⟩
    exact ⟨.inr hopened, by omega⟩

private theorem span_lt_length {ls : List String} (hne : ls ≠ []) : span ls < ls.length :=
  (spanFrom_settles 0 false hne).1

/-- A search forward that stops with the first number that has a property, or else with the last. -/
theorem isLeast_or_last {P : Nat → Prop} {start length count : Nat}
    (hbefore : ∀ k < length, ¬P (start + k))
    (hstop : P (start + length) ∨ start + length + 1 = count) (hbound : ∀ k, P k → k < count) :
    IsLeast {k | start ≤ k ∧ P k} (start + length) ∨
      (∀ k, start ≤ k → ¬P k) ∧ start + length + 1 = count := by
  have hfirst : ∀ k, start ≤ k → P k → start + length ≤ k := by
    intro k hstart hk
    obtain ⟨j, rfl⟩ := Nat.exists_eq_add_of_le hstart
    by_contra hearly
    exact hbefore j (by omega) hk
  by_cases hfound : P (start + length)
  · refine .inl ⟨⟨by omega, hfound⟩, ?_⟩
    rintro k ⟨hstart, hk⟩
    exact hfirst k hstart hk
  · have hlast := hstop.resolve_left hfound
    refine .inr ⟨fun k hstart hk => ?_, hlast⟩
    have hafter := hfirst k hstart hk
    have hcount := hbound k hk
    rw [show k = start + length by omega] at hk
    exact hfound hk

private theorem endsAt_span {lines : List String} {start : Nat} (h : start < lines.length) :
    EndsAt lines start (start + span (lines.drop start)) := by
  have hne : lines.drop start ≠ [] := by simpa using h
  obtain ⟨hlt, hbefore, hend⟩ := spanFrom_settles 0 false hne
  rw [← span, List.length_drop] at hlt hend
  have hlevel : ∀ k, IsLevel (between lines start (start + k)) ↔
      Settles 0 false ((lines.drop start).take (k + 1)) := by
    intro k
    rw [settles_iff_isLevel, between, show start + k + 1 - start = k + 1 by omega]
  have hearly : ∀ k < span (lines.drop start),
      ¬(start + k < lines.length ∧ IsLevel (between lines start (start + k))) := by
    rintro k hk ⟨-, hover⟩
    exact hbefore k hk ((hlevel k).mp hover)
  have hstop : (start + span (lines.drop start) < lines.length ∧
        IsLevel (between lines start (start + span (lines.drop start)))) ∨
      start + span (lines.drop start) + 1 = lines.length := by
    refine hend.imp (fun hover => ⟨by omega, (hlevel _).mpr hover⟩) fun hlast => ?_
    omega
  simpa only [EndsAt, not_and] using
    isLeast_or_last (P := fun k => k < lines.length ∧ IsLevel (between lines start k)) hearly hstop
      fun k hk => hk.1

/-! Trees of blocks. -/

mutual
def withInner : Block → List Block
  | ⟨opening, start, stop, content, children⟩ =>
    ⟨opening, start, stop, content, children⟩ :: allBlocks children

def allBlocks : List Block → List Block
  | [] => []
  | b :: bs => withInner b ++ allBlocks bs
end

theorem allBlocks_nil : allBlocks [] = [] := by rw [allBlocks]

theorem allBlocks_cons (b : Block) (bs : List Block) :
    allBlocks (b :: bs) = b :: (allBlocks b.children ++ allBlocks bs) := by
  cases b
  rw [allBlocks, withInner, List.cons_append]

/-- Blocks beside each other that a rule finds in a text: they start in a range of lines, each after
the one before it has ended, on lines that open them, and all other lines of the range that no block
covers open nothing. -/
structure Row (lines : List String) (rule : String → Option Opening) (first last : Nat)
    (bs : List Block) : Prop where
  starts : ∀ b ∈ bs, first ≤ b.start ∧ b.start < last
  apart : bs.Pairwise fun a b => a.stop < b.start
  opened : ∀ b ∈ bs, ∃ line, lines[b.start]? = some line ∧ rule line = some b.opening
  quiet : ∀ i line, first ≤ i → i < last → lines[i]? = some line →
    (∀ b ∈ bs, i < b.start ∨ b.stop < i) → rule line = none

/-- A block as its text says. Only groups have blocks inside them, and these start between the first
and the last line of the group. -/
structure Formed (lines : List String) (b : Block) : Prop where
  start_le_stop : b.start ≤ b.stop
  stop_lt : b.stop < lines.length
  content_eq : b.content = unlines (between lines b.start b.stop)
  endsAt : EndsAt lines b.start b.stop
  leaf : b.kind ≠ .describe → b.children = []
  group : b.kind = .describe → Row lines opensInside (b.start + 1) b.stop b.children

section Scan

variable {lines : List String} {rule : String → Option Opening} {first last budget length : Nat}
  {line : String} {rest : List String} {bs : List Block}

private theorem Row.nil (h : last ≤ first ∨ lines.length ≤ first) :
    Row lines rule first last [] where
  starts b hb := absurd hb List.not_mem_nil
  apart := List.Pairwise.nil
  opened b hb := absurd hb List.not_mem_nil
  quiet i line hfirst hlast hline _ := by
    have hi : i < lines.length := (List.getElem?_eq_some_iff.mp hline).1
    omega

private theorem Row.skip (hline : lines[first]? = some line) (hrule : rule line = none)
    (h : Row lines rule (first + 1) last bs) : Row lines rule first last bs where
  starts b hb := by
    have hstart := h.starts b hb
    omega
  apart := h.apart
  opened := h.opened
  quiet i other hfirst hlast hother hout := by
    rcases Nat.eq_or_lt_of_le hfirst with rfl | hafter
    · rw [hline] at hother
      rwa [← Option.some.inj hother]
    · exact h.quiet i other hafter hlast hother hout

private theorem Row.cons {b : Block} (hstart : b.start = first) (hlast : first < last)
    (hstop : b.start ≤ b.stop) (hline : lines[first]? = some line)
    (hrule : rule line = some b.opening) (h : Row lines rule (b.stop + 1) last bs) :
    Row lines rule first last (b :: bs) where
  starts c hc := by
    rcases List.mem_cons.mp hc with rfl | hc
    · omega
    · have hrest := h.starts c hc
      omega
  apart := List.pairwise_cons.mpr ⟨fun c hc => (h.starts c hc).1, h.apart⟩
  opened c hc := by
    rcases List.mem_cons.mp hc with rfl | hc
    · exact ⟨line, by rw [hstart, hline], hrule⟩
    · exact h.opened c hc
  quiet i other hfirst hi hother hout := by
    rw [List.forall_mem_cons] at hout
    exact h.quiet i other (hout.1.resolve_left (by omega)) hi hother hout.2

private theorem Row.congr_last {other : Nat} (h : Row lines rule first last bs)
    (hlast : last = other ∨ last ≤ first ∧ other ≤ first) : Row lines rule first other bs where
  starts b hb := by
    have hstart := h.starts b hb
    omega
  apart := h.apart
  opened := h.opened
  quiet i line hfirst hi := h.quiet i line hfirst (by omega)

theorem getElem?_of_drop (h : line :: rest = lines.drop first) :
    lines[first]? = some line := by
  rw [← List.head?_drop, ← h, List.head?_cons]

theorem drop_behind (h : line :: rest = lines.drop first) (n : Nat) :
    rest.drop n = lines.drop (first + n + 1) := by
  have hrest : rest = (lines.drop first).drop 1 := by rw [← h, List.drop_one, List.tail_cons]
  rw [hrest, List.drop_drop, List.drop_drop]
  congr 1
  omega

private theorem formed_of_inner {opening : Opening} {inner : List Block}
    (h : line :: rest = lines.drop first) (hleaf : opening.kind ≠ .describe → inner = [])
    (hgroup : opening.kind = .describe →
      Row lines opensInside (first + 1) (first + span (line :: rest)) inner) :
    Formed lines
      { opening, start := first, stop := first + span (line :: rest),
        content := unlines ((line :: rest).take (span (line :: rest) + 1)),
        children := inner } := by
  have hlt : span (line :: rest) < (line :: rest).length := span_lt_length (by simp)
  have hlength : (line :: rest).length = lines.length - first := by rw [h, List.length_drop]
  have hends : EndsAt lines first (first + span (line :: rest)) := by
    rw [h]
    exact endsAt_span (by omega)
  refine ⟨Nat.le_add_right _ _, ?_, ?_, hends, hleaf, hgroup⟩
  · dsimp only
    omega
  · dsimp only
    rw [between, ← h]
    congr 2
    omega

private theorem row_blocksIn (budget first : Nat) (ls : List String) (h : ls = lines.drop first) :
    Row lines rule first (first + budget) (blocksIn rule budget first ls) ∧
      ∀ b ∈ allBlocks (blocksIn rule budget first ls), Formed lines b := by
  fun_induction blocksIn rule budget first ls with
  | case1 rule budget first =>
    exact ⟨Row.nil (.inr (List.drop_eq_nil_iff.mp h.symm)), by simp [allBlocks_nil]⟩
  | case2 rule first line rest => exact ⟨Row.nil (.inl le_rfl), by simp [allBlocks_nil]⟩
  | case3 rule first line rest budget hrule ih =>
    obtain ⟨hrow, hformed⟩ := ih (drop_behind h 0)
    refine ⟨Row.skip (getElem?_of_drop h) hrule (hrow.congr_last (.inl ?_)), hformed⟩
    omega
  | case4 rule first line rest budget opening hrule length ihinner ihrest =>
    obtain ⟨hinner, hinnerFormed⟩ := ihinner (drop_behind h 0)
    obtain ⟨hrow, hformed⟩ := ihrest (drop_behind h length)
    -- A block of a single line has no lines inside it, and the range of the inner scan is empty.
    have hgroup : Row lines opensInside (first + 1) (first + length)
        (blocksIn opensInside (length - 1) (first + 1) rest) := hinner.congr_last (by omega)
    constructor
    · refine Row.cons rfl (by omega) (Nat.le_add_right _ _) (getElem?_of_drop h) hrule ?_
      exact hrow.congr_last (by omega)
    · intro b hb
      rw [allBlocks_cons, List.mem_cons, List.mem_append] at hb
      rcases hb with rfl | hb | hb
      · refine formed_of_inner h (fun hkind => if_neg hkind) fun hkind => ?_
        rw [if_pos hkind]
        exact hgroup
      · dsimp only at hb
        split_ifs at hb
        · exact hinnerFormed b hb
        · simp [allBlocks_nil] at hb
      · exact hformed b hb

end Scan

theorem row_blocks (lines : List String) : Row lines opensAtTop 0 lines.length (blocks lines) :=
  (row_blocksIn lines.length 0 lines (List.drop_zero).symm).1.congr_last (by omega)

theorem formed_of_mem_allBlocks {lines : List String} {b : Block}
    (h : b ∈ allBlocks (blocks lines)) : Formed lines b :=
  (row_blocksIn lines.length 0 lines (List.drop_zero).symm).2 b h

/-- In every text the blocks form a tree, and each line outside all blocks is a comment or calls
nothing that opens one. -/
theorem blocks_formed (lines : List String) :
    (∀ b ∈ allBlocks (blocks lines), Formed lines b) ∧
      Row lines opensAtTop 0 lines.length (blocks lines) ∧
      ∀ i line, lines[i]? = some line → (∀ b ∈ blocks lines, i < b.start ∨ b.stop < i) →
        isCommentLine line = true ∨
          describeName? line = none ∧ testName? line = none ∧ hook? line = none := by
  refine ⟨fun b hb => formed_of_mem_allBlocks hb, row_blocks lines, fun i line hline hout => ?_⟩
  have hi : i < lines.length := (List.getElem?_eq_some_iff.mp hline).1
  have hquiet : opensAtTop line = none :=
    (row_blocks lines).quiet i line (Nat.zero_le i) hi hline hout
  cases hcomment : isCommentLine line with
  | true => exact .inl rfl
  | false =>
    simp only [opensAtTop, hcomment, Bool.false_eq_true, if_false, Option.or_eq_none_iff] at hquiet
    exact .inr (by simpa [describeOpening?, testOpening?, hookOpening?] using hquiet)

end SuiteTidy.Suite
