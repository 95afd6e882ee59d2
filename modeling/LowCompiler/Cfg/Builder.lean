import Mathlib.Data.List.Basic

/-!
# Basic blocks and the instruction builder

A function under construction is a list of basic blocks and the block that the
builder stands at the end of. A finished block has one terminator, at its end. The
rules at the end of this file follow a builder that starts each block once and
leaves it closed.
-/

namespace Low

/-- An instruction. Instructions that do not end a block carry what the user of the builder puts there. -/
inductive Instr (I V : Type) where
  | plain (instr : I)
  | br (block : Nat)
  | condBr (cond : V) (onTrue onFalse : Nat)
  | ret (value : Option V)
  | unreachable
  deriving DecidableEq, Repr

def Instr.isTerminator {I V : Type} : Instr I V → Bool
  | .plain _ => false
  | _ => true

structure Builder (I V : Type) where
  blocks : List (List (Instr I V))
  current : Nat
  deriving DecidableEq, Repr

namespace Builder

variable {I V : Type}

def entry : Builder I V := ⟨[[]], 0⟩

def block (b : Builder I V) (n : Nat) : List (Instr I V) :=
  (b.blocks[n]?).getD []

/-- `LLVMAppendBasicBlock`. The new block has the number of blocks before it. -/
def appendBlock (b : Builder I V) : Builder I V :=
  { b with blocks := b.blocks ++ [[]] }

/-- `LLVMPositionBuilderAtEnd`. -/
def positionAtEnd (b : Builder I V) (n : Nat) : Builder I V :=
  { b with current := n }

def build (b : Builder I V) (instr : Instr I V) : Builder I V :=
  { b with blocks := b.blocks.modify b.current (· ++ [instr]) }

section Fields
variable (b : Builder I V) (n : Nat) (instr : Instr I V)

@[simp] theorem appendBlock_current : b.appendBlock.current = b.current := rfl

@[simp] theorem appendBlock_length : b.appendBlock.blocks.length = b.blocks.length + 1 := by
  simp [appendBlock]

@[simp] theorem appendBlock_block : b.appendBlock.block n = b.block n := by
  simp only [block, appendBlock, List.getElem?_append]
  split
  · rfl
  · rw [List.getElem?_eq_none (by omega : b.blocks.length ≤ n)]
    cases n - b.blocks.length <;> rfl

@[simp] theorem positionAtEnd_current : (b.positionAtEnd n).current = n := rfl

@[simp] theorem positionAtEnd_length : (b.positionAtEnd n).blocks.length = b.blocks.length := rfl

@[simp] theorem positionAtEnd_block (m : Nat) : (b.positionAtEnd n).block m = b.block m := rfl

@[simp] theorem build_current : (b.build instr).current = b.current := rfl

@[simp] theorem build_length : (b.build instr).blocks.length = b.blocks.length := by
  simp [build]

theorem build_block (inside : b.current < b.blocks.length) :
    (b.build instr).block n = if n = b.current then b.block n ++ [instr] else b.block n := by
  simp only [block, build, List.getElem?_modify]
  split
  case isTrue here =>
    subst here
    simp [List.getElem?_eq_getElem inside]
  case isFalse other =>
    rw [if_neg (Ne.symm other)]
    simp

@[simp] theorem entry_block : (entry : Builder I V).block n = [] := by
  cases n with
  | zero => rfl
  | succ n => simp [entry, block]

end Fields

/-! ### Growth -/

/-- Blocks are only added, and instructions only at their ends. -/
structure Grows (b b' : Builder I V) : Prop where
  length : b.blocks.length ≤ b'.blocks.length
  block : ∀ n, b.block n <+: b'.block n

namespace Grows

variable {b b' b'' : Builder I V}

theorem refl (b : Builder I V) : Grows b b := ⟨Nat.le_refl _, fun _ => List.prefix_rfl⟩

theorem trans (first : Grows b b') (second : Grows b' b'') : Grows b b'' :=
  ⟨Nat.le_trans first.length second.length, fun n => (first.block n).trans (second.block n)⟩

theorem appendBlock (b : Builder I V) : Grows b b.appendBlock :=
  ⟨by simp, fun n => (appendBlock_block b n).symm ▸ List.prefix_rfl⟩

theorem appendTwo (b : Builder I V) : Grows b b.appendBlock.appendBlock :=
  (appendBlock b).trans (appendBlock _)

theorem appendThree (b : Builder I V) : Grows b b.appendBlock.appendBlock.appendBlock :=
  (appendTwo b).trans (appendBlock _)

theorem appendFour (b : Builder I V) : Grows b b.appendBlock.appendBlock.appendBlock.appendBlock :=
  (appendThree b).trans (appendBlock _)

theorem positionAtEnd (b : Builder I V) (n : Nat) : Grows b (b.positionAtEnd n) :=
  ⟨Nat.le_refl _, fun _ => List.prefix_rfl⟩

theorem build (b : Builder I V) (instr : Instr I V) : Grows b (b.build instr) := by
  refine ⟨by simp, fun n => ?_⟩
  by_cases inside : b.current < b.blocks.length
  · rw [build_block b n instr inside]
    split
    · exact List.prefix_append _ _
    · exact List.prefix_rfl
  · have same : b.build instr = b := by
      simp only [Builder.build]
      rw [List.modify_eq_self (Nat.le_of_not_lt inside)]
    exact same.symm ▸ List.prefix_rfl

end Grows

/-- `b'` comes from `b` by building, and the first instruction goes to the current block. -/
def Starts (b b' : Builder I V) : Prop :=
  ∃ b₁ instr, Grows b b₁ ∧ b₁.current = b.current ∧ Grows (b₁.build instr) b'

namespace Starts

variable {b b' b'' : Builder I V}

theorem build (b : Builder I V) (instr : Instr I V) : Starts b (b.build instr) :=
  ⟨b, instr, .refl b, rfl, .refl _⟩

theorem trans (starts : Starts b b') (grows : Grows b' b'') : Starts b b'' := by
  obtain ⟨b₁, instr, blocks, current, later⟩ := starts
  exact ⟨b₁, instr, blocks, current, later.trans grows⟩

theorem grows (starts : Starts b b') : Grows b b' := by
  obtain ⟨b₁, instr, blocks, _, later⟩ := starts
  exact (blocks.trans (.build _ _)).trans later

theorem longer (starts : Starts b b') (inside : b.current < b.blocks.length) :
    (b.block b.current).length < (b'.block b.current).length := by
  obtain ⟨b₁, instr, blocks, current, later⟩ := starts
  have built : (b₁.build instr).block b.current = b₁.block b.current ++ [instr] := by
    rw [build_block _ _ _ (Nat.lt_of_lt_of_le (current ▸ inside) blocks.length), if_pos current.symm]
  have first := (blocks.block b.current).length_le
  have last := (later.block b.current).length_le
  rw [built, List.length_append, List.length_singleton] at last
  omega

end Starts

theorem Grows.starts {b b' b'' : Builder I V} (grows : Grows b b') (current : b'.current = b.current)
    (starts : Starts b' b'') : Starts b b'' := by
  obtain ⟨b₁, instr, blocks, same, later⟩ := starts
  exact ⟨b₁, instr, grows.trans blocks, same.trans current, later⟩

/-! ### Open, closed and broken blocks -/

def Open (block : List (Instr I V)) : Prop :=
  ∀ instr ∈ block, instr.isTerminator = false

/-- One terminator, and it is the last instruction. -/
def Closed (block : List (Instr I V)) : Prop :=
  ∃ body last, block = body ++ [last] ∧ Open body ∧ last.isTerminator = true

/-- Instructions behind a terminator. -/
def Broken (block : List (Instr I V)) : Prop :=
  ∃ body instr after, block = body ++ instr :: after ∧ instr.isTerminator = true ∧ after ≠ []

/-- Each block has exactly one terminator, and it is the last instruction of the block. -/
def WellFormed (b : Builder I V) : Prop :=
  ∀ block ∈ b.blocks, Closed block

section Blocks
variable {block block' : List (Instr I V)} {instr : Instr I V}

@[simp] theorem open_nil : Open ([] : List (Instr I V)) := fun _ member => absurd member List.not_mem_nil

theorem Open.plain (opened : Open block) (i : I) : Open (block ++ [.plain i]) :=
  List.forall_mem_append.mpr ⟨opened, List.forall_mem_singleton.mpr rfl⟩

theorem Open.terminator (opened : Open block) (terminator : instr.isTerminator = true) :
    Closed (block ++ [instr]) :=
  ⟨block, instr, rfl, opened, terminator⟩

theorem Closed.broken (closed : Closed block) (le : block <+: block') (longer : block.length < block'.length) :
    Broken block' := by
  obtain ⟨body, last, rfl, _, terminator⟩ := closed
  obtain ⟨after, rfl⟩ := le
  refine ⟨body, last, after, by simp, terminator, ?_⟩
  rintro rfl
  simp at longer

theorem Broken.mono (broken : Broken block) (le : block <+: block') : Broken block' := by
  obtain ⟨body, instr, after, rfl, terminator, more⟩ := broken
  obtain ⟨rest, rfl⟩ := le
  exact ⟨body, instr, after ++ rest, by simp, terminator, by simp [more]⟩

theorem Broken.not_closed (broken : Broken block) : ¬Closed block := by
  rintro ⟨body', last, same, opened, _⟩
  obtain ⟨body, instr, after, rfl, terminator, more⟩ := broken
  obtain ⟨init, final, rfl⟩ := (List.eq_nil_or_concat after).resolve_left more
  rw [List.concat_eq_append, ← List.cons_append, ← List.append_assoc] at same
  have inside : instr ∈ body' := by
    rw [← (List.append_inj' same rfl).1]
    simp
  rw [opened _ inside] at terminator
  cases terminator

end Blocks

/-! ### Builders that start each block once -/

/-- All blocks are closed, but for the current one and those `pending`, which are not started. -/
structure Tidy (pending : List Nat) (b : Builder I V) : Prop where
  inside : b.current < b.blocks.length
  known : ∀ n ∈ pending, n < b.blocks.length
  distinct : (b.current :: pending).Nodup
  unstarted : ∀ n ∈ pending, b.block n = []
  closed : ∀ n < b.blocks.length, n ≠ b.current → n ∉ pending → Closed (b.block n)

namespace Tidy

variable {pending : List Nat} {b : Builder I V} {n : Nat}

theorem entry : Tidy [] (entry : Builder I V) where
  inside := Nat.one_pos
  known := fun _ member => absurd member List.not_mem_nil
  distinct := List.pairwise_singleton _ _
  unstarted := fun _ member => absurd member List.not_mem_nil
  closed := fun _ small other => absurd (Nat.lt_one_iff.mp small) other

theorem build (tidy : Tidy pending b) (instr : Instr I V) : Tidy pending (b.build instr) where
  inside := by simpa using tidy.inside
  known := by simpa using tidy.known
  distinct := tidy.distinct
  unstarted := by
    intro n member
    rw [build_block _ _ _ tidy.inside, if_neg]
    · exact tidy.unstarted n member
    · rintro rfl
      exact (List.nodup_cons.mp tidy.distinct).1 member
  closed := by
    intro n small other absent
    rw [build_block _ _ _ tidy.inside, if_neg (by exact other)]
    exact tidy.closed n (by simpa using small) other absent

theorem build_current (tidy : Tidy pending b) (instr : Instr I V) :
    (b.build instr).block b.current = b.block b.current ++ [instr] := by
  rw [build_block _ _ _ tidy.inside, if_pos rfl]

theorem appendBlock (tidy : Tidy pending b) : Tidy (b.blocks.length :: pending) b.appendBlock where
  inside := by
    have := tidy.inside
    simp
    omega
  known := by
    simp only [List.mem_cons, forall_eq_or_imp, appendBlock_length, Nat.lt_succ_self, true_and]
    exact fun n member => Nat.lt_succ_of_lt (tidy.known n member)
  distinct := by
    have fresh : b.blocks.length ∉ b.current :: pending := by
      intro member
      rcases List.mem_cons.mp member with here | later
      · exact Nat.lt_irrefl _ (here ▸ tidy.inside)
      · exact Nat.lt_irrefl _ (tidy.known _ later)
    rw [List.mem_cons, not_or] at fresh
    obtain ⟨current, distinct⟩ := List.nodup_cons.mp tidy.distinct
    refine List.nodup_cons.mpr ⟨?_, List.nodup_cons.mpr ⟨fresh.2, distinct⟩⟩
    intro member
    rcases List.mem_cons.mp member with here | later
    · exact fresh.1 here.symm
    · exact current later
  unstarted := by
    simp only [List.mem_cons, forall_eq_or_imp, appendBlock_block]
    refine ⟨?_, tidy.unstarted⟩
    simp [block]
  closed := by
    intro n small other absent
    rw [List.mem_cons, not_or] at absent
    rw [appendBlock_block]
    rw [appendBlock_length] at small
    exact tidy.closed n (by omega) other absent.2

theorem positionAtEnd {rest : List Nat} (tidy : Tidy pending b) (perm : pending.Perm (n :: rest))
    (closed : Closed (b.block b.current)) : Tidy rest (b.positionAtEnd n) where
  inside := tidy.known n (perm.mem_iff.mpr List.mem_cons_self)
  known := fun m member => tidy.known m (perm.mem_iff.mpr (List.mem_cons_of_mem _ member))
  distinct := perm.nodup_iff.mp (List.nodup_cons.mp tidy.distinct).2
  unstarted := fun m member => tidy.unstarted m (perm.mem_iff.mpr (List.mem_cons_of_mem _ member))
  closed := by
    intro m small other absent
    by_cases left : m = b.current
    · subst left
      exact closed
    · refine tidy.closed m small left fun waiting => ?_
      exact (List.mem_cons.mp (perm.mem_iff.mp waiting)).elim other absent

theorem wellFormed (tidy : Tidy [] b) (closed : Closed (b.block b.current)) : WellFormed b := by
  intro block member
  obtain ⟨n, small, rfl⟩ := List.mem_iff_getElem.mp member
  have here : b.block n = b.blocks[n] := by simp [Builder.block, List.getElem?_eq_getElem small]
  rw [← here]
  by_cases current : n = b.current
  · exact current ▸ closed
  · exact tidy.closed n small current List.not_mem_nil

end Tidy

/-- The current block takes instructions. -/
structure Ready (pending : List Nat) (b : Builder I V) : Prop extends Tidy pending b where
  opened : Open (b.block b.current)

structure Finished (pending : List Nat) (b : Builder I V) : Prop extends Tidy pending b where
  finished : Closed (b.block b.current)

section Rules
variable {pending rest : List Nat} {b b' : Builder I V} {n : Nat} {instr : Instr I V}

theorem ready_entry : Ready [] (entry : Builder I V) :=
  ⟨Tidy.entry, by simp⟩

theorem Ready.plain (ready : Ready pending b) (i : I) : Ready pending (b.build (.plain i)) := by
  refine ⟨ready.build _, ?_⟩
  rw [build_current, ready.build_current]
  exact ready.opened.plain i

theorem Ready.finish (ready : Ready pending b) (instr : Instr I V) (terminator : instr.isTerminator = true) :
    Finished pending (b.build instr) := by
  refine ⟨ready.build _, ?_⟩
  rw [build_current, ready.build_current]
  exact ready.opened.terminator terminator

theorem Ready.appendBlock (ready : Ready pending b) : Ready (b.blocks.length :: pending) b.appendBlock := by
  refine ⟨ready.toTidy.appendBlock, ?_⟩
  rw [appendBlock_block]
  exact ready.opened

theorem Finished.positionAtEnd (finished : Finished pending b) (perm : pending.Perm (n :: rest)) :
    Ready rest (b.positionAtEnd n) := by
  refine ⟨finished.toTidy.positionAtEnd perm finished.finished, ?_⟩
  rw [positionAtEnd_current, positionAtEnd_block, finished.unstarted n (perm.mem_iff.mpr List.mem_cons_self)]
  exact open_nil

/-- Appends blocks, finishes the current block and goes on in the first of the new ones. -/
theorem Ready.startTwo (ready : Ready pending b) (instr : Instr I V) (terminator : instr.isTerminator = true) :
    Ready ((b.blocks.length + 1) :: pending)
      ((b.appendBlock.appendBlock.build instr).positionAtEnd b.blocks.length) := by
  have appended := ready.appendBlock.appendBlock
  rw [appendBlock_length] at appended
  exact (appended.finish instr terminator).positionAtEnd (.swap _ _ _)

theorem Ready.startThree (ready : Ready pending b) (instr : Instr I V)
    (terminator : instr.isTerminator = true) :
    Ready ((b.blocks.length + 2) :: (b.blocks.length + 1) :: pending)
      ((b.appendBlock.appendBlock.appendBlock.build instr).positionAtEnd b.blocks.length) := by
  have appended := ready.appendBlock.appendBlock.appendBlock
  simp only [appendBlock_length] at appended
  exact (appended.finish instr terminator).positionAtEnd (List.perm_middle : ([_, _] ++ _ :: pending).Perm _)

theorem Ready.startFour (ready : Ready pending b) (instr : Instr I V) (terminator : instr.isTerminator = true) :
    Ready ((b.blocks.length + 3) :: (b.blocks.length + 2) :: (b.blocks.length + 1) :: pending)
      ((b.appendBlock.appendBlock.appendBlock.appendBlock.build instr).positionAtEnd b.blocks.length) := by
  have appended := ready.appendBlock.appendBlock.appendBlock.appendBlock
  simp only [appendBlock_length] at appended
  exact (appended.finish instr terminator).positionAtEnd (List.perm_middle : ([_, _, _] ++ _ :: pending).Perm _)

theorem Finished.wellFormed (finished : Finished [] b) : WellFormed b :=
  finished.toTidy.wellFormed finished.finished

/-- Whatever is built behind a terminator breaks the block. -/
theorem Finished.broken (finished : Finished pending b) (starts : Starts b b') : Broken (b'.block b.current) :=
  finished.finished.broken (starts.grows.block _) (starts.longer finished.inside)

theorem Broken.not_wellFormed (broken : Broken (b.block n)) : ¬WellFormed b := by
  intro wellFormed
  refine broken.not_closed ?_
  by_cases inside : n < b.blocks.length
  · rw [block, List.getElem?_eq_getElem inside]
    exact wellFormed _ (List.getElem_mem inside)
  · obtain ⟨body, instr, after, same, _⟩ := broken
    rw [block, List.getElem?_eq_none (Nat.le_of_not_lt inside)] at same
    simp at same

end Rules

end Builder

end Low
