import SuiteTidy.Proofs.Lists
import SuiteTidy.Proofs.Suite.Nesting
import SuiteTidy.Suite.Source

/-!
The hooks of a test source. Hooks are looked for among the outermost blocks, but most stand inside a
group. Main statement: the hooks that are reported are those outside all groups, in the order of
their lines, and they are all the hooks of the source exactly if every hook starts on a line on
which one outside all groups does. If no block reaches out of the one that it is in, this means that
no group holds a hook.
-/

set_option autoImplicit false
set_option relaxedAutoImplicit false

namespace SuiteTidy.Suite

def Block.isHook (b : Block) : Bool :=
  match b.kind with
  | .hook _ => true
  | _ => false

/-- The names of the hooks among blocks and inside them, for each line of a text on which a hook
starts. -/
def hooksByLine (bs : List Block) (count : Nat) : List String :=
  (List.range count).filterMap fun i =>
    ((allBlocks bs).find? fun b => b.isHook && b.start == i).map Block.name

/-! The name of a hook. -/

private theorem opening_cases {line : String} {opening : Opening}
    (h : opensAtTop line = some opening ∨ opensInside line = some opening) :
    describeOpening? line = some opening ∨ testOpening? line = some opening ∨
      hookOpening? line = some opening := by
  rcases h with htop | hinside
  · rw [opensAtTop] at htop
    split_ifs at htop
    rcases Option.or_eq_some_iff.mp htop with hgroup | ⟨-, hother⟩
    · exact .inl hgroup
    · exact .inr ((Option.or_eq_some_iff.mp hother).imp_right And.right)
  · rw [opensInside] at hinside
    split_ifs at hinside
    · exact .inl hinside
    · exact .inr (.inl hinside)
    · exact .inr (.inr hinside)

private theorem exists_hook {lines : List String} {b : Block} (hb : b ∈ allBlocks (blocks lines))
    (hhook : b.isHook = true) :
    ∃ line h, lines[b.start]? = some line ∧ hook? line = some h ∧ b.kind = .hook h ∧
      b.name = h.name := by
  obtain ⟨line, hline, hopens⟩ := exists_opener hb
  rcases opening_cases hopens with hgroup | htest | hcalled
  · obtain ⟨name, -, hopening⟩ := Option.map_eq_some_iff.mp hgroup
    simp [Block.isHook, Block.kind, ← hopening] at hhook
  · obtain ⟨name, -, hopening⟩ := Option.map_eq_some_iff.mp htest
    simp [Block.isHook, Block.kind, ← hopening] at hhook
  · obtain ⟨h, hfound, hopening⟩ := Option.map_eq_some_iff.mp hcalled
    refine ⟨line, h, hline, hfound, ?_, ?_⟩
    · rw [Block.kind, ← hopening]
    · rw [Block.name, ← hopening]

private theorem name_eq_of_start_eq {lines : List String} {a b : Block}
    (ha : a ∈ allBlocks (blocks lines)) (hb : b ∈ allBlocks (blocks lines))
    (hhook : a.isHook = true) (hhook' : b.isHook = true) (hstart : a.start = b.start) :
    a.name = b.name := by
  obtain ⟨line, h, hline, hfound, -, hname⟩ := exists_hook ha hhook
  obtain ⟨line', h', hline', hfound', -, hname'⟩ := exists_hook hb hhook'
  rw [hstart, hline', Option.some.injEq] at hline
  subst hline
  rw [hfound', Option.some.injEq] at hfound
  rw [hname, hname', hfound]

private theorem hookNames_eq {bs : List Block}
    (h : ∀ b ∈ bs, ∀ hook, b.kind = .hook hook → b.name = hook.name) :
    hookNames bs = (bs.filter Block.isHook).map Block.name := by
  induction bs with
  | nil => rfl
  | cons b bs ih =>
    rw [List.forall_mem_cons] at h
    rw [hookNames, List.filterMap_cons, ← hookNames, ih h.2, List.filter_cons, Block.isHook]
    cases hkind : b.kind with
    | hook hook => simp [h.1 hook hkind]
    | _ => simp

/-! Blocks by line. -/

private theorem filterMap_find?_start {bs : List Block}
    (hsorted : bs.Pairwise fun a b => a.start < b.start) {first count : Nat}
    (h : ∀ b ∈ bs, first ≤ b.start ∧ b.start < first + count) :
    (List.range' first count).filterMap (fun i => bs.find? fun b => b.start == i) = bs := by
  induction count generalizing first bs with
  | zero =>
    cases bs with
    | nil => rfl
    | cons b bs =>
      have hb := h b List.mem_cons_self
      omega
  | succ count ih =>
    rw [List.range'_succ, List.filterMap_cons]
    cases bs with
    | nil => simp
    | cons b bs =>
      obtain ⟨hbefore, hsorted'⟩ := List.pairwise_cons.mp hsorted
      have hb := h b List.mem_cons_self
      by_cases hfirst : b.start = first
      · -- The first block starts here, and what is asked of the lines behind is not about it.
        have hrest : ∀ i ∈ List.range' (first + 1) count,
            ((b :: bs).find? fun c => c.start == i) = bs.find? fun c => c.start == i := by
          intro i hi
          have hne : ¬b.start = i := by
            have := (List.mem_range'_1.mp hi).1
            omega
          simp [hne]
        have hlater : ∀ c ∈ bs, first + 1 ≤ c.start ∧ c.start < first + 1 + count := by
          intro c hc
          have hc' := h c (List.mem_cons_of_mem b hc)
          have hlt := hbefore c hc
          omega
        rw [List.filterMap_congr hrest, ih hsorted' hlater]
        simp [hfirst]
      · have hlater : ∀ c ∈ b :: bs, first + 1 ≤ c.start ∧ c.start < first + 1 + count := by
          intro c hc
          have hc' := h c hc
          rcases List.mem_cons.mp hc with rfl | hc
          · omega
          · have hlt := hbefore c hc
            omega
        have hnone : ((b :: bs).find? fun c => c.start == first) = none := by
          rw [List.find?_eq_none]
          intro c hc
          have hc' := hlater c hc
          simp
          omega
        rw [hnone, ih hsorted hlater]

private theorem map_name_hooks {bs : List Block}
    (hsorted : bs.Pairwise fun a b => a.start < b.start) {count : Nat}
    (h : ∀ b ∈ bs, b.start < count) :
    (List.range count).filterMap
        (fun i => (bs.find? fun b => b.isHook && b.start == i).map Block.name) =
      (bs.filter Block.isHook).map Block.name := by
  have hfound : (List.range' 0 count).filterMap
      (fun i => (bs.filter Block.isHook).find? fun b => b.start == i) = bs.filter Block.isHook := by
    apply filterMap_find?_start (hsorted.filter Block.isHook)
    intro b hb
    have hlt := h b (List.mem_of_mem_filter hb)
    omega
  rw [List.range_eq_range', ← List.map_filterMap]
  simpa only [List.find?_filter, Bool.decide_and, Bool.decide_eq_true] using
    congrArg (List.map Block.name) hfound

/-! Hooks inside groups. -/

private theorem mem_allBlocks_iff {x : Block} {bs : List Block} :
    x ∈ allBlocks bs ↔ x ∈ bs ∨ ∃ b ∈ bs, x ∈ allBlocks b.children := by
  induction bs with
  | nil => simp [allBlocks_nil]
  | cons b bs ih =>
    rw [mem_allBlocks_cons, ih, List.mem_cons, List.exists_mem_cons_iff, ← or_assoc, or_or_or_comm]

/-- As many blocks of a kind lie in a tree as among the outermost, exactly if there are none
inside. -/
private theorem countP_allBlocks (p : Block → Bool) (bs : List Block) :
    bs.countP p ≤ (allBlocks bs).countP p ∧
      ((allBlocks bs).countP p = bs.countP p ↔
        ∀ b ∈ bs, ∀ x ∈ allBlocks b.children, p x = false) := by
  induction bs with
  | nil => simp [allBlocks_nil]
  | cons b bs ih =>
    obtain ⟨hle, hiff⟩ := ih
    rw [allBlocks_cons, List.countP_cons, List.countP_cons, List.countP_append,
      List.forall_mem_cons, ← hiff]
    have hinner :
        (allBlocks b.children).countP p = 0 ↔ ∀ x ∈ allBlocks b.children, p x = false := by
      rw [List.countP_eq_zero]
      simp
    rw [← hinner]
    omega

section Text

variable (lines : List String)

private theorem starts_increase : (blocks lines).Pairwise fun a b => a.start < b.start := by
  refine (row_blocks lines).apart.imp_of_mem ?_
  intro a b ha hb hlt
  have hle := (formed_of_mem_allBlocks (mem_allBlocks_of_mem ha)).start_le_stop
  omega

private theorem hookNames_blocks :
    hookNames (blocks lines) = ((blocks lines).filter Block.isHook).map Block.name := by
  apply hookNames_eq
  intro b hb hook hkind
  have hhook : b.isHook = true := by rw [Block.isHook, hkind]
  obtain ⟨line, h, -, -, hkind', hname⟩ := exists_hook (mem_allBlocks_of_mem hb) hhook
  rw [hkind, BlockKind.hook.injEq] at hkind'
  rw [hname, hkind']

variable {lines} in
private theorem find?_hook {b : Block} (hb : b ∈ allBlocks (blocks lines))
    (hhook : b.isHook = true) :
    ((allBlocks (blocks lines)).find? fun c => c.isHook && c.start == b.start).map Block.name =
      some b.name := by
  cases hfound : (allBlocks (blocks lines)).find? fun c => c.isHook && c.start == b.start with
  | none =>
    have hnone := List.find?_eq_none.mp hfound b hb
    simp [hhook] at hnone
  | some c =>
    have hc := List.find?_some hfound
    simp only [Bool.and_eq_true, beq_iff_eq] at hc
    rw [Option.map_some, name_eq_of_start_eq (List.mem_of_find?_eq_some hfound) hb hc.1 hhook hc.2]

private theorem hookNames_eq_hooksByLine_iff :
    hookNames (blocks lines) = hooksByLine (blocks lines) lines.length ↔
      ∀ b ∈ allBlocks (blocks lines), b.isHook = true →
        ∃ t ∈ blocks lines, t.isHook = true ∧ t.start = b.start := by
  have hbound : ∀ b ∈ blocks lines, b.start < lines.length := by
    intro b hb
    exact ((row_blocks lines).starts b hb).2
  have hfinds : ∀ i ∈ List.range lines.length, ∀ name,
      ((blocks lines).find? fun b => b.isHook && b.start == i).map Block.name = some name →
        ((allBlocks (blocks lines)).find? fun b => b.isHook && b.start == i).map Block.name =
          some name := by
    intro i _ name hname
    obtain ⟨b, hfound, rfl⟩ := Option.map_eq_some_iff.mp hname
    have hb := List.find?_some hfound
    simp only [Bool.and_eq_true, beq_iff_eq] at hb
    obtain ⟨hhook, rfl⟩ := hb
    exact find?_hook (mem_allBlocks_of_mem (List.mem_of_find?_eq_some hfound)) hhook
  rw [hookNames_blocks, ← map_name_hooks (starts_increase lines) hbound, hooksByLine,
    (Lists.filterMap_eq_iff hfinds).2]
  simp only [Option.map_eq_none_iff, List.find?_eq_none, Bool.and_eq_true, beq_iff_eq, not_and]
  constructor
  · intro hall b hb hhook
    by_contra hnone
    have hformed := formed_of_mem_allBlocks hb
    have hline : b.start ∈ List.range lines.length := by
      rw [List.mem_range]
      exact Nat.lt_of_le_of_lt hformed.start_le_stop hformed.stop_lt
    refine hall b.start hline (fun t ht hhook' hstart => ?_) b hb hhook rfl
    exact hnone ⟨t, ht, hhook', hstart⟩
  · rintro hall i - hnone b hb hhook rfl
    obtain ⟨t, ht, hhook', hstart⟩ := hall b hb hhook
    exact hnone t ht hhook' hstart

end Text

private theorem Nested.hooksByLine_eq {lines : List String} (h : Nested (blocks lines)) :
    hooksByLine (blocks lines) lines.length =
      ((allBlocks (blocks lines)).filter Block.isHook).map Block.name := by
  have hformed : ∀ b ∈ allBlocks (blocks lines), Formed lines b :=
    fun b hb => formed_of_mem_allBlocks hb
  apply map_name_hooks (h.starts_increase hformed (row_blocks lines).apart).2
  intro b hb
  exact Nat.lt_of_le_of_lt (hformed b hb).start_le_stop (hformed b hb).stop_lt

/-- The hooks that are reported are those outside all groups, by line. They are all hooks of the
source exactly if every hook starts where one outside all groups does, and so, if nothing reaches
out, exactly if no group holds a hook. -/
theorem setupHooks_eq_hooksByLine_iff (text : String) :
    (outline text).setupHooks = ((outline text).blocks.filter Block.isHook).map Block.name ∧
    ((outline text).blocks.map Block.start).Pairwise (· < ·) ∧
    ((outline text).setupHooks = hooksByLine (outline text).blocks (linesOf text).length ↔
      ∀ b ∈ allBlocks (outline text).blocks, b.isHook = true →
        ∃ t ∈ (outline text).blocks, t.isHook = true ∧ t.start = b.start) ∧
    (Nested (outline text).blocks →
      hooksByLine (outline text).blocks (linesOf text).length =
          ((allBlocks (outline text).blocks).filter Block.isHook).map Block.name ∧
        ((outline text).setupHooks = hooksByLine (outline text).blocks (linesOf text).length ↔
          ∀ t ∈ (outline text).blocks, ∀ b ∈ allBlocks t.children, b.isHook = false)) := by
  have hreported := hookNames_blocks (linesOf text)
  have hiff := hookNames_eq_hooksByLine_iff (linesOf text)
  refine ⟨hreported, List.pairwise_map.mpr (starts_increase _), hiff, fun hnested => ?_⟩
  have hall := hnested.hooksByLine_eq
  refine ⟨hall, ?_⟩
  constructor
  · intro hsame
    have hlength := congrArg List.length (hreported.symm.trans (hsame.trans hall))
    simp only [List.length_map, ← List.countP_eq_length_filter] at hlength
    exact (countP_allBlocks Block.isHook _).2.mp hlength.symm
  · intro hnone
    apply hiff.mpr
    intro b hb hhook
    rcases mem_allBlocks_iff.mp hb with htop | ⟨t, ht, hinner⟩
    · exact ⟨b, htop, hhook, rfl⟩
    · rw [hnone t ht b hinner] at hhook
      cases hhook

def hooked : String := "describe('a', () => \x7b\n  beforeEach(() => \x7b\n  \x7d);\n\x7d);"

theorem setupHooks_eq_hooksByLine_iff_hooked :
    Nested (outline hooked).blocks ∧
      hooksByLine (outline hooked).blocks (linesOf hooked).length = ["beforeEach"] ∧
      (outline hooked).setupHooks ≠
        hooksByLine (outline hooked).blocks (linesOf hooked).length := by
  have hnested : Nested (outline hooked).blocks := by decide +kernel
  obtain ⟨hall, hiff⟩ := (setupHooks_eq_hooksByLine_iff hooked).2.2.2 hnested
  refine ⟨hnested, hall.trans (by decide +kernel), fun hsame => ?_⟩
  exact absurd (hiff.mp hsame) (by decide +kernel)

end SuiteTidy.Suite
