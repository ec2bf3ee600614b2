import SuiteTidy.Proofs.Suite.Extent

/-!
Blocks inside others. Where a block ends is found from its own lines alone, so that it may reach
beyond the block that it is in, and then a line behind that one may open two blocks. Main statement:
all blocks end inside those that they are in, and no line opens two of them, exactly if the lines of
each are level by the last line of the block around it. A text in which no line closes two braces
more than it opens, and each line that opens a block opens a brace and closes no more, has only such
blocks.
-/

set_option autoImplicit false
set_option relaxedAutoImplicit false

namespace SuiteTidy.Suite

/-! All blocks of a tree. -/

section Induction

variable {motive : List Block → Prop}

mutual
private theorem children_induction (nil : motive [])
    (cons : ∀ b bs, motive b.children → motive bs → motive (b :: bs)) :
    ∀ b : Block, motive b.children
  | ⟨_, _, _, _, children⟩ => blocks_induction nil cons children

/-- What holds of blocks beside each other, if it holds of those inside the first and of those
behind it, holds of all. -/
private theorem blocks_induction (nil : motive [])
    (cons : ∀ b bs, motive b.children → motive bs → motive (b :: bs)) :
    ∀ bs : List Block, motive bs
  | [] => nil
  | b :: bs => cons b bs (children_induction nil cons b) (blocks_induction nil cons bs)
end

end Induction

theorem mem_allBlocks_cons {x b : Block} {bs : List Block} :
    x ∈ allBlocks (b :: bs) ↔ x = b ∨ x ∈ allBlocks b.children ∨ x ∈ allBlocks bs := by
  rw [allBlocks_cons, List.mem_cons, List.mem_append]

theorem mem_allBlocks_of_mem {b : Block} {bs : List Block} (h : b ∈ bs) : b ∈ allBlocks bs := by
  induction bs with
  | nil => cases h
  | cons first bs ih =>
    rw [mem_allBlocks_cons]
    rcases List.mem_cons.mp h with rfl | h
    · exact .inl rfl
    · exact .inr (.inr (ih h))

private theorem mem_allBlocks_of_child {b c : Block} {bs : List Block} (hb : b ∈ allBlocks bs)
    (hc : c ∈ b.children) : c ∈ allBlocks bs := by
  induction bs using blocks_induction with
  | nil => simp [allBlocks_nil] at hb
  | cons first bs ihinner ih =>
    rw [mem_allBlocks_cons] at hb ⊢
    rcases hb with rfl | hb | hb
    · exact .inr (.inl (mem_allBlocks_of_mem hc))
    · exact .inr (.inl (ihinner hb))
    · exact .inr (.inr (ih hb))

private theorem mem_or_child_of_mem_allBlocks {b : Block} {bs : List Block} (h : b ∈ allBlocks bs) :
    b ∈ bs ∨ ∃ a ∈ allBlocks bs, b ∈ a.children := by
  induction bs using blocks_induction with
  | nil => simp [allBlocks_nil] at h
  | cons first bs ihinner ih =>
    rcases mem_allBlocks_cons.mp h with rfl | hinner | hrest
    · exact .inl List.mem_cons_self
    · right
      rcases ihinner hinner with hchild | ⟨a, ha, hchild⟩
      · exact ⟨first, mem_allBlocks_cons.mpr (.inl rfl), hchild⟩
      · exact ⟨a, mem_allBlocks_cons.mpr (.inr (.inl ha)), hchild⟩
    · rcases ih hrest with hmem | ⟨a, ha, hchild⟩
      · exact .inl (List.mem_cons_of_mem first hmem)
      · exact .inr ⟨a, mem_allBlocks_cons.mpr (.inr (.inr ha)), hchild⟩

section Formed

variable {lines : List String} {b c : Block}

private theorem Formed.describe_of_child (h : Formed lines b) (hc : c ∈ b.children) :
    b.kind = .describe := by
  by_contra hkind
  rw [h.leaf hkind] at hc
  cases hc

private theorem Formed.children_apart (h : Formed lines b) :
    b.children.Pairwise fun x y => x.stop < y.start := by
  by_cases hkind : b.kind = .describe
  · exact (h.group hkind).apart
  · rw [h.leaf hkind]
    exact List.Pairwise.nil

private theorem Formed.child_start (h : Formed lines b) (hc : c ∈ b.children) :
    b.start < c.start ∧ c.start < b.stop :=
  (h.group (h.describe_of_child hc)).starts c hc

theorem exists_opener (h : b ∈ allBlocks (blocks lines)) :
    ∃ line, lines[b.start]? = some line ∧
      (opensAtTop line = some b.opening ∨ opensInside line = some b.opening) := by
  rcases mem_or_child_of_mem_allBlocks h with htop | ⟨a, ha, hchild⟩
  · obtain ⟨line, hline, hopens⟩ := (row_blocks lines).opened b htop
    exact ⟨line, hline, .inl hopens⟩
  · have hformed := formed_of_mem_allBlocks ha
    obtain ⟨line, hline, hopens⟩ :=
      (hformed.group (hformed.describe_of_child hchild)).opened b hchild
    exact ⟨line, hline, .inr hopens⟩

end Formed

/-! Trees in which nothing reaches out. -/

/-- Every block ends inside the block that it is in. -/
def Nested (bs : List Block) : Prop := ∀ b ∈ allBlocks bs, ∀ c ∈ b.children, c.stop ≤ b.stop

instance (bs : List Block) : Decidable (Nested bs) :=
  inferInstanceAs (Decidable (∀ b ∈ allBlocks bs, ∀ c ∈ b.children, c.stop ≤ b.stop))

theorem Nested.starts_increase {lines : List String} {bs : List Block} (h : Nested bs)
    (hformed : ∀ b ∈ allBlocks bs, Formed lines b)
    (hapart : bs.Pairwise fun a b => a.stop < b.start) :
    (∀ x ∈ allBlocks bs, ∃ b ∈ bs, b.start ≤ x.start ∧ x.stop ≤ b.stop) ∧
      (allBlocks bs).Pairwise fun x y => x.start < y.start := by
  induction bs using blocks_induction with
  | nil => simp [allBlocks_nil]
  | cons b bs ihinner ih =>
    have hself : b ∈ allBlocks (b :: bs) := mem_allBlocks_cons.mpr (.inl rfl)
    have hinner : ∀ x ∈ allBlocks b.children, x ∈ allBlocks (b :: bs) :=
      fun x hx => mem_allBlocks_cons.mpr (.inr (.inl hx))
    have hrest : ∀ x ∈ allBlocks bs, x ∈ allBlocks (b :: bs) :=
      fun x hx => mem_allBlocks_cons.mpr (.inr (.inr hx))
    have hb := hformed b hself
    obtain ⟨hbehind, hapart⟩ := List.pairwise_cons.mp hapart
    obtain ⟨hcovered, hsorted⟩ := ihinner (fun x hx => h x (hinner x hx))
      (fun x hx => hformed x (hinner x hx)) hb.children_apart
    obtain ⟨hcovered', hsorted'⟩ := ih (fun x hx => h x (hrest x hx))
      (fun x hx => hformed x (hrest x hx)) hapart
    -- What is inside the block lies in one of its children, and these end inside it.
    have hinside : ∀ x ∈ allBlocks b.children, b.start < x.start ∧ x.stop ≤ b.stop := by
      intro x hx
      obtain ⟨c, hc, hstart, hstop⟩ := hcovered x hx
      have hbetween := hb.child_start hc
      have hend := h b hself c hc
      omega
    have hafter : ∀ y ∈ allBlocks bs, b.stop < y.start := by
      intro y hy
      obtain ⟨c, hc, hstart, -⟩ := hcovered' y hy
      have hnext := hbehind c hc
      omega
    constructor
    · intro x hx
      rcases mem_allBlocks_cons.mp hx with rfl | hx | hx
      · exact ⟨x, List.mem_cons_self, le_rfl, le_rfl⟩
      · have hx := hinside x hx
        exact ⟨b, List.mem_cons_self, by omega, hx.2⟩
      · obtain ⟨c, hc, hlies⟩ := hcovered' x hx
        exact ⟨c, List.mem_cons_of_mem b hc, hlies⟩
    · rw [allBlocks_cons, List.pairwise_cons, List.pairwise_append]
      refine ⟨fun x hx => ?_, hsorted, hsorted', fun x hx y hy => ?_⟩
      · rcases List.mem_append.mp hx with hx | hx
        · exact (hinside x hx).1
        · have hstop := hafter x hx
          have hstart := hb.start_le_stop
          omega
      · have hx' := hinside x hx
        have hy' := hafter y hy
        have hstart := (hformed x (hinner x hx)).start_le_stop
        omega

def Block.isTest (b : Block) : Bool := decide (b.kind = .test)

private theorem testCases_eq {lines : List String} {bs : List Block}
    (h : ∀ b ∈ allBlocks bs, Formed lines b) :
    testCases bs = ((allBlocks bs).filter Block.isTest).map Block.name := by
  induction bs using blocks_induction with
  | nil => simp [allBlocks_nil, testCases]
  | cons b bs ihinner ih =>
    have hb := h b (mem_allBlocks_cons.mpr (.inl rfl))
    have hinner := ihinner fun x hx => h x (mem_allBlocks_cons.mpr (.inr (.inl hx)))
    have hrest := ih fun x hx => h x (mem_allBlocks_cons.mpr (.inr (.inr hx)))
    have hcases : testCasesOf b = if b.kind = .test then [b.name] else testCases b.children := by
      cases b
      rw [testCasesOf]
      rfl
    rw [testCases, hcases, hinner, hrest, allBlocks_cons]
    by_cases hkind : b.kind = .test
    · have hnone : b.children = [] := hb.leaf (by simp [hkind])
      simp [hkind, hnone, allBlocks_nil, Block.isTest]
    · simp [hkind, Block.isTest]

/-! Where a block ends inside another. -/

private theorem EndsAt.le_iff {lines : List String} {start stop last : Nat}
    (h : EndsAt lines start stop) (hstop : stop < lines.length) (hlast : last < lines.length) :
    stop ≤ last ↔
      last + 1 = lines.length ∨ ∃ k, start ≤ k ∧ k ≤ last ∧ IsLevel (between lines start k) := by
  constructor
  · intro hle
    rcases h with ⟨⟨hstart, -, hlevel⟩, -⟩ | ⟨-, hend⟩
    · exact .inr ⟨stop, hstart, hle, hlevel⟩
    · exact .inl (by omega)
  · rintro (hend | ⟨k, hstart, hk, hlevel⟩)
    · omega
    · rcases h with ⟨-, hleast⟩ | ⟨hnever, -⟩
      · exact (hleast ⟨hstart, by omega, hlevel⟩).trans hk
      · exact absurd hlevel (hnever k hstart (by omega))

/-! The depth of braces. -/

private def depth (lines : List String) (first last : Nat) : Int :=
  tally '\x7b' (between lines first last) - tally '\x7d' (between lines first last)

private theorem between_append (lines : List String) {first middle last : Nat}
    (hfirst : first ≤ middle + 1) (hlast : middle ≤ last) :
    between lines first last =
      between lines first middle ++ between lines (middle + 1) last := by
  obtain ⟨n, hn⟩ : ∃ n, middle + 1 = first + n := ⟨middle + 1 - first, by omega⟩
  obtain ⟨m, rfl⟩ : ∃ m, last = middle + m := ⟨last - middle, by omega⟩
  rw [between, between, between, hn, show middle + m + 1 - first = n + m by omega,
    show first + n - first = n by omega, show middle + m + 1 - (first + n) = m by omega,
    List.take_add, List.drop_drop]

private theorem depth_add (lines : List String) {first middle last : Nat}
    (hfirst : first ≤ middle + 1) (hlast : middle ≤ last) :
    depth lines first last = depth lines first middle + depth lines (middle + 1) last := by
  rw [depth, between_append lines hfirst hlast, tally_append, tally_append, depth, depth]
  push_cast
  omega

private theorem between_self {lines : List String} {i : Nat} {line : String}
    (h : lines[i]? = some line) : between lines i i = [line] := by
  rw [between, show i + 1 - i = 1 by omega, List.take_one, List.head?_drop, h, Option.toList_some]

private theorem depth_self {lines : List String} {i : Nat} {line : String}
    (h : lines[i]? = some line) : depth lines i i = opens line - closes line := by
  rw [depth, between_self h, tally_cons, tally_cons]
  rfl

/-- What goes down by at most one in each step meets zero before it is below. -/
private theorem exists_eq_zero {f : Nat → Int} {i j : Nat} (hij : i ≤ j)
    (hdown : ∀ k, i ≤ k → k < j → f k ≤ f (k + 1) + 1) (hfirst : 0 ≤ f i) (hlast : f j < 0) :
    ∃ k, i ≤ k ∧ k < j ∧ f k = 0 := by
  induction j, hij using Nat.le_induction with
  | base => omega
  | succ j hij ih =>
    by_cases hbelow : f j < 0
    · obtain ⟨k, hik, hkj, hk⟩ := ih (fun k hik hkj => hdown k hik (by omega)) hbelow
      exact ⟨k, hik, by omega, hk⟩
    · have hstep := hdown j hij (Nat.lt_succ_self j)
      exact ⟨j, hij, Nat.lt_succ_self j, by omega⟩

/-- A text in which no line closes two braces more than it opens, and each line that opens a block
opens a brace and closes no more than it opens. -/
structure Tidy (lines : List String) : Prop where
  closes_le : ∀ line ∈ lines, closes line ≤ opens line + 1
  opener : ∀ line ∈ lines, opensAtTop line ≠ none ∨ opensInside line ≠ none →
    0 < opens line ∧ closes line ≤ opens line

instance (lines : List String) : Decidable (Tidy lines) :=
  decidable_of_iff
    ((∀ line ∈ lines, closes line ≤ opens line + 1) ∧
      ∀ line ∈ lines, opensAtTop line ≠ none ∨ opensInside line ≠ none →
        0 < opens line ∧ closes line ≤ opens line)
    ⟨fun h => ⟨h.1, h.2⟩, fun h => ⟨h.closes_le, h.opener⟩⟩

section Tidy

variable {lines : List String} {b c : Block}

private theorem Tidy.depth_down (h : Tidy lines) {first k : Nat} (hfirst : first ≤ k + 1)
    (hk : k + 1 < lines.length) : depth lines first k ≤ depth lines first (k + 1) + 1 := by
  have hline : lines[k + 1]? = some lines[k + 1] := List.getElem?_eq_getElem hk
  have hcloses := h.closes_le _ (List.getElem_mem hk)
  rw [depth_add lines hfirst (Nat.le_succ k), depth_self hline]
  omega

private theorem Tidy.opened (h : Tidy lines) (hb : b ∈ allBlocks (blocks lines)) :
    0 ≤ depth lines b.start b.start ∧
      ∀ k, b.start ≤ k → 0 < tally '\x7b' (between lines b.start k) := by
  obtain ⟨line, hline, hopens⟩ := exists_opener hb
  have hsome : opensAtTop line ≠ none ∨ opensInside line ≠ none :=
    hopens.imp (fun h => by simp [h]) fun h => by simp [h]
  obtain ⟨hopen, hclose⟩ := h.opener line (List.mem_of_getElem? hline) hsome
  refine ⟨by rw [depth_self hline]; omega, fun k hk => ?_⟩
  rw [between_append lines (Nat.le_succ b.start) hk, tally_append, between_self hline, tally_cons]
  have hcount : line.toList.count '\x7b' = opens line := rfl
  omega

private theorem Tidy.level_of_depth (h : Tidy lines) (hb : b ∈ allBlocks (blocks lines)) {k : Nat}
    (hk : b.start ≤ k) (hdepth : depth lines b.start k = 0) :
    IsLevel (between lines b.start k) := by
  refine ⟨(h.opened hb).2 k hk, ?_⟩
  rw [depth] at hdepth
  omega

private theorem Tidy.depth_pos (h : Tidy lines) (hb : b ∈ allBlocks (blocks lines))
    (hleast : ∀ k, b.start ≤ k → IsLevel (between lines b.start k) → b.stop ≤ k) {k : Nat}
    (hstart : b.start ≤ k) (hk : k < b.stop) : 0 < depth lines b.start k := by
  have hstop := (formed_of_mem_allBlocks hb).stop_lt
  by_contra hnot
  rcases Int.lt_or_eq_of_le (Int.not_lt.mp hnot) with hbelow | hzero
  · obtain ⟨i, hi, hik, hzero⟩ := exists_eq_zero (f := depth lines b.start) hstart
      (fun i hi hik => h.depth_down (by omega) (by omega)) (h.opened hb).1 hbelow
    have hend := hleast i hi (h.level_of_depth hb hi hzero)
    omega
  · have hend := hleast k hstart (h.level_of_depth hb hstart hzero)
    omega

theorem Tidy.nested (h : Tidy lines) : Nested (blocks lines) := by
  intro b hb c hchild
  have hc := mem_allBlocks_of_child hb hchild
  have hformed := formed_of_mem_allBlocks hb
  have hchildFormed := formed_of_mem_allBlocks hc
  obtain ⟨hafter, hbefore⟩ := hformed.child_start hchild
  rw [hchildFormed.endsAt.le_iff hchildFormed.stop_lt hformed.stop_lt]
  rcases hformed.endsAt with ⟨⟨-, -, hlevel⟩, hleast⟩ | ⟨-, hend⟩
  · right
    -- The outer block is open where the inner one starts and closed where it ends itself, so the
    -- inner one closes on the way down.
    have hopen : 0 < depth lines b.start (c.start - 1) := by
      refine h.depth_pos hb (fun k hk hlevel => ?_) (by omega) (by omega)
      by_contra hlt
      exact hlt (hleast ⟨hk, by have := hformed.stop_lt; omega, hlevel⟩)
    have hclosed : depth lines b.start b.stop = 0 := by
      rw [depth]
      have hsame := hlevel.2
      omega
    have hsplit : depth lines b.start b.stop =
        depth lines b.start (c.start - 1) + depth lines (c.start - 1 + 1) b.stop :=
      depth_add lines (by omega) (by omega)
    rw [Nat.sub_add_cancel (by omega : 1 ≤ c.start)] at hsplit
    obtain ⟨k, hk, hkstop, hzero⟩ := exists_eq_zero (f := depth lines c.start) hbefore.le
      (fun k hk hkstop => h.depth_down (by omega) (by have := hformed.stop_lt; omega))
      (h.opened hc).1 (by omega)
    exact ⟨k, hk, hkstop.le, h.level_of_depth hc hk hzero⟩
  · exact .inl hend

end Tidy

/-- The tests that are reported are those of the tree. All blocks end inside those that they are in
and no line opens two of them exactly if each block is level by the last line of the one around it,
or that is the last line of the text. In a tidy text this is so, and the blocks start one after
another. -/
theorem nested_iff_level (lines : List String) :
    testCases (blocks lines) = ((allBlocks (blocks lines)).filter Block.isTest).map Block.name ∧
    (Nested (blocks lines) ∧ ((allBlocks (blocks lines)).map Block.start).Nodup ↔
      ∀ b ∈ allBlocks (blocks lines), ∀ c ∈ b.children, b.stop + 1 = lines.length ∨
        ∃ k, c.start ≤ k ∧ k ≤ b.stop ∧ IsLevel (between lines c.start k)) ∧
    (Tidy lines → Nested (blocks lines) ∧
      ((allBlocks (blocks lines)).map Block.start).Pairwise (· < ·)) := by
  have hformed : ∀ b ∈ allBlocks (blocks lines), Formed lines b :=
    fun b hb => formed_of_mem_allBlocks hb
  have hsorted : Nested (blocks lines) →
      ((allBlocks (blocks lines)).map Block.start).Pairwise (· < ·) := by
    intro hnested
    rw [List.pairwise_map]
    exact (hnested.starts_increase hformed (row_blocks lines).apart).2
  have hends : Nested (blocks lines) ↔
      ∀ b ∈ allBlocks (blocks lines), ∀ c ∈ b.children, b.stop + 1 = lines.length ∨
        ∃ k, c.start ≤ k ∧ k ≤ b.stop ∧ IsLevel (between lines c.start k) := by
    refine forall₂_congr fun b hb => forall₂_congr fun c hc => ?_
    have hchild := hformed c (mem_allBlocks_of_child hb hc)
    exact hchild.endsAt.le_iff hchild.stop_lt (hformed b hb).stop_lt
  refine ⟨testCases_eq hformed, ?_, fun htidy => ⟨htidy.nested, hsorted htidy.nested⟩⟩
  rw [← hends, and_iff_left_iff_imp]
  exact fun hnested => (hsorted hnested).imp fun hlt => Nat.ne_of_lt hlt

def neat : List String :=
  ["describe('a', () => \x7b", "  beforeEach(() => \x7b", "    reset();", "  \x7d);",
    "  it('b', () => \x7b \x7d);", "  describe('c', () => \x7b", "    it('d', async () => \x7b",
    "      if (ready) \x7b", "      \x7d else \x7b", "      \x7d", "    \x7d);", "  \x7d);",
    "\x7d);", "it('e', () => \x7b", "\x7d);"]

theorem nested_iff_level_neat :
    Tidy neat ∧ Nested (blocks neat) ∧
      ((allBlocks (blocks neat)).map Block.start).Pairwise (· < ·) ∧
      testCases (blocks neat) = ["b", "d", "e"] :=
  have htidy : Tidy neat := by decide +kernel
  ⟨htidy, ((nested_iff_level neat).2.2 htidy).1, ((nested_iff_level neat).2.2 htidy).2,
    by decide +kernel⟩

/-- A group whose tests are given by name, in another group, and two tests behind that one. -/
def outrun : List String :=
  ["describe('a', () => \x7b", "  describe('b', suite);", "\x7d);", "it('c', f);",
    "it('d', () => \x7b", "\x7d);"]

-- The inner group is level only with the test behind the outer one, and the first of the two tests
-- is found in it and outside.
example : ¬Nested (blocks outrun) ∧ (allBlocks (blocks outrun)).map Block.start = [0, 1, 3, 3] ∧
    testCases (blocks outrun) = ["c", "c"] := by
  decide +kernel

end SuiteTidy.Suite
