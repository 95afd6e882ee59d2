import LowCompiler.Codegen.Graph

/-!
# The shapes of blocks

The code generator opens blocks in three shapes: a condition with two branches that meet
again in a phi, a check that traps, and a loop.
-/

namespace Low

open Llvm (Op Ty)

namespace Building

def append (s : Building) : Building := { s with blocks := s.blocks + 1 }

/-- A block is positioned at after the one before it has ended. -/
def enter (s : Building) (terminator : Emitted) (block : Nat) : Building :=
  (s.push terminator).push (.position block)

section Fields
variable (s : Building) (e : Emitted) (b n m : Nat)

@[simp] theorem append_blocks : s.append.blocks = s.blocks + 1 := rfl

@[simp] theorem append_current : s.append.current = s.current := rfl

@[simp] theorem append_block : s.append.block n = s.block n := rfl

@[simp] theorem append_branches : s.append.Branches m n ↔ s.Branches m n := Iff.rfl

@[simp] theorem enter_blocks : (s.enter e b).blocks = s.blocks := rfl

@[simp] theorem enter_current : (s.enter e b).current = b := push_current _ _

theorem enter_block (stays : (s.push e).current = s.current) : (s.enter e b).block n =
    if n = s.current then s.block n ++ (s.walk.instr e).toList else s.block n := by
  rw [enter, push_block, push_block, stays]
  simp [Walk.instr]

theorem enter_branches : (s.enter e b).Branches m n ↔ s.Branches m n ∨ m = s.current ∧ e.Targets n := by
  rw [enter, push_branches, push_branches]
  simp [Emitted.Targets]

end Fields

/-- No phi is exact or inexact because of an instruction elsewhere. -/
theorem exactAt_congr {s s' : Building} {n : Nat}
    (phis : ∀ number type incoming, .plain (number, .phi type incoming) ∈ s'.block n ↔
      .plain (number, .phi type incoming) ∈ s.block n)
    (branches : ∀ m, s'.Branches m n ↔ s.Branches m n) : s'.ExactAt n ↔ s.ExactAt n := by
  simp only [ExactAt, phis, branches]

theorem exactAt_enter {s : Building} {n target block : Nat} (other : n ≠ target) :
    (s.enter (.br target) block).ExactAt n ↔ s.ExactAt n := by
  refine exactAt_congr (fun number type incoming => ?_) fun m => ?_
  · rw [enter_block _ _ _ _ (push_current s _)]
    split <;> simp [Walk.instr]
  · simp [enter_branches, Emitted.Targets, other]

theorem exactAt_elsewhere {s : Building} {n : Nat} {op : Op} (other : n ≠ s.current) :
    (s.push (.op op)).ExactAt n ↔ s.ExactAt n := by
  refine exactAt_congr (fun number type incoming => ?_) fun m => ?_
  · rw [push_block, if_neg other]
  · simp [push_branches, Emitted.Targets]

theorem exactAt_empty {s : Building} {n : Nat} (empty : s.block n = []) : s.ExactAt n := by
  intro number type incoming member
  simp [empty] at member

/-! ### Two branches that meet -/

section Diamond
variable {opens opens' flat flat' : Prop} {s onTrue onFalse exit : Building} {condition value value' : Llvm.Value}
  {type : Ty}

/-- The branches begin in the first two of three new blocks. -/
theorem diamond_starts (sound : s.Sound) (condition : Llvm.Value) :
    Region s (s.append.append.append.enter (.condBr condition s.blocks (s.blocks + 1)) s.blocks) := by
  have opened : Region s s.append.append.append := (Region.refl sound).append.append.append
  have known : s.append.append.append.blocks = s.blocks + 3 := rfl
  exact (opened.condBr (Nat.le_refl _) (Nat.le_succ _) (by omega) (by omega)).goes (Nat.le_refl _) (by simp; omega)

/-- A branch ends, and the next block is one of the three. -/
theorem Region.enter {s s' : Building} (region : Region s s') (target block : Nat) (inside : target < s'.blocks)
    (inside' : block < s'.blocks) (new : s.blocks ≤ target) (new' : s.blocks ≤ block) :
    Region s (s'.enter (.br target) block) :=
  (region.br new inside).goes new' inside'

theorem starts_block (n : Nat) : (s.append.append.append.enter (.condBr condition s.blocks (s.blocks + 1)) s.blocks).block n =
    if n = s.current then s.block n ++ [.condBr condition s.blocks (s.blocks + 1)] else s.block n :=
  enter_block _ _ _ _ (push_current _ _)

theorem between_block {target block : Nat} (n : Nat) : (s.enter (.br target) block).block n =
    if n = s.current then s.block n ++ [.br target] else s.block n :=
  enter_block _ _ _ _ (push_current _ _)

/-- A block that is entered later is empty when the first branch ends. -/
theorem Codes.later_empty (sound : s.Sound)
    (true : Codes opens flat (s.append.append.append.enter (.condBr condition s.blocks (s.blocks + 1)) s.blocks) onTrue)
    {n : Nat} (new : s.blocks < n) (inside : n < s.blocks + 3) : onTrue.block n = [] := by
  have current := sound.current
  rw [true.frame _ inside (by simp; omega), starts_block, if_neg (by omega)]
  exact sound.empty (Nat.le_of_lt new)

/-- The first branch ends in a block that is not entered later. -/
theorem Codes.ends (true : Codes opens flat (s.append.append.append.enter (.condBr condition s.blocks (s.blocks + 1)) s.blocks)
    onTrue) : onTrue.current = s.blocks ∧ ¬opens ∨ s.blocks + 3 ≤ onTrue.current ∧ opens := by
  by_cases opened : opens
  · exact .inr ⟨true.moves opened, opened⟩
  · exact .inl ⟨(true.stays opened).1.trans (enter_current _ _ _), opened⟩

theorem Codes.ends_again (false : Codes opens flat (onTrue.enter (.br (s.blocks + 2)) (s.blocks + 1)) onFalse) :
    onFalse.current = s.blocks + 1 ∧ ¬opens ∨ onTrue.blocks ≤ onFalse.current ∧ opens := by
  by_cases opened : opens
  · exact .inr ⟨false.moves opened, opened⟩
  · exact .inl ⟨(false.stays opened).1.trans (enter_current _ _ _), opened⟩

theorem exit_empty (sound : s.Sound)
    (true : Codes opens flat (s.append.append.append.enter (.condBr condition s.blocks (s.blocks + 1)) s.blocks) onTrue)
    (false : Codes opens' flat' (onTrue.enter (.br (s.blocks + 2)) (s.blocks + 1)) onFalse) :
    (onFalse.enter (.br (s.blocks + 2)) (s.blocks + 2)).block (s.blocks + 2) = [] := by
  have blocks : s.blocks + 3 ≤ onTrue.blocks := true.blocks
  have last := true.ends.imp And.left And.left
  have last' := false.ends_again.imp And.left And.left
  rw [between_block, if_neg (by omega), false.frame _ (by simp; omega) (by simp), between_block, if_neg (by omega)]
  exact true.later_empty sound (by omega) (by omega)

/-- The last block is entered from the last blocks of the branches. -/
theorem diamond_branches (sound : s.Sound)
    (true : Codes opens flat (s.append.append.append.enter (.condBr condition s.blocks (s.blocks + 1)) s.blocks) onTrue)
    (false : Codes opens' flat' (onTrue.enter (.br (s.blocks + 2)) (s.blocks + 1)) onFalse)
    (meets : Codes False True (onFalse.enter (.br (s.blocks + 2)) (s.blocks + 2)) exit) (op : Op) (m : Nat) :
    (exit.push (.op op)).Branches m (s.blocks + 2) ↔ m = onTrue.current ∨ m = onFalse.current := by
  have current := sound.current
  have blocks₃ : s.blocks + 3 ≤ onTrue.blocks := true.blocks
  have blocks₅ : onTrue.blocks ≤ onFalse.blocks := false.blocks
  have before : ¬s.Branches m (s.blocks + 2) := fun there => by
    have := sound.target there
    omega
  rw [push_branches, meets.branches m _ (by simp; omega), enter_branches, false.branches m _ (by simp; omega),
    enter_branches, true.branches m _ (by simp), enter_branches]
  simp [Emitted.Targets, before]

/-- The phi at the end is exact if both branches end in their first blocks. -/
theorem diamond_meet (sound : s.Sound)
    (true : Codes opens flat (s.append.append.append.enter (.condBr condition s.blocks (s.blocks + 1)) s.blocks) onTrue)
    (false : Codes opens' flat' (onTrue.enter (.br (s.blocks + 2)) (s.blocks + 1)) onFalse)
    (meets : Codes False True (onFalse.enter (.br (s.blocks + 2)) (s.blocks + 2)) exit) :
    (exit.push (.op (.phi type [(value, s.blocks), (value', s.blocks + 1)]))).ExactAt (s.blocks + 2) ↔
      ¬opens ∧ ¬opens' := by
  have blocks₃ : s.blocks + 3 ≤ onTrue.blocks := true.blocks
  have current₇ : exit.current = s.blocks + 2 := by simpa using (meets.stays id).1
  have current₃ := true.ends
  have current₅ := false.ends_again
  obtain ⟨code, built, plain⟩ := meets.added
  rw [enter_current, exit_empty sound true false, List.nil_append] at built
  have only (number : Nat) (type' : Ty) (incoming : List (Llvm.Value × Nat)) :
      .plain (number, .phi type' incoming) ∈
        (exit.push (.op (.phi type [(value, s.blocks), (value', s.blocks + 1)]))).block (s.blocks + 2) ↔
      number = exit.walk.count ∧ type' = type ∧ incoming = [(value, s.blocks), (value', s.blocks + 1)] := by
    have none : .plain (number, .phi type' incoming) ∉ code := fun member => plain _ member trivial
    rw [push_block, if_pos current₇.symm, built, List.mem_append, or_iff_right none]
    simp [Walk.instr]
  simp only [ExactAt, only, diamond_branches sound true false meets]
  constructor
  · intro exact
    have fromTrue := exact exit.walk.count type _ ⟨rfl, rfl, rfl⟩ s.blocks
    have fromFalse := exact exit.walk.count type _ ⟨rfl, rfl, rfl⟩ (s.blocks + 1)
    simp at fromTrue fromFalse
    have place₃ := current₃.imp And.left And.left
    have place₅ := current₅.imp And.left And.left
    refine ⟨fun opened => ?_, fun opened => ?_⟩
    · have := (current₃.resolve_left fun still => still.2 opened).1
      omega
    · have := (current₅.resolve_left fun still => still.2 opened).1
      omega
  · rintro ⟨still, still'⟩ number type' incoming ⟨rfl, rfl, rfl⟩ m
    have last := (current₃.resolve_right fun moved => still moved.2).1
    have last' := (current₅.resolve_right fun moved => still' moved.2).1
    simp [last, last', exists_or]

/-- The phi names the first blocks of the branches. It is exact if they are also the last ones. -/
theorem diamond (sound : s.Sound)
    (true : Codes opens flat (s.append.append.append.enter (.condBr condition s.blocks (s.blocks + 1)) s.blocks) onTrue)
    (false : Codes opens' flat' (onTrue.enter (.br (s.blocks + 2)) (s.blocks + 1)) onFalse)
    (meets : Codes False True (onFalse.enter (.br (s.blocks + 2)) (s.blocks + 2)) exit) :
    Codes True ((flat ∧ flat') ∧ ¬opens ∧ ¬opens') s
      (exit.push (.op (.phi type [(value, s.blocks), (value', s.blocks + 1)]))) := by
  have starts := diamond_starts sound condition
  have blocks₃ : s.blocks + 3 ≤ onTrue.blocks := true.blocks
  have blocks₅ : onTrue.blocks ≤ onFalse.blocks := false.blocks
  obtain ⟨current₇, blocks₇⟩ : exit.current = s.blocks + 2 ∧ exit.blocks = onFalse.blocks := by
    simpa using meets.stays id
  have regionTrue := starts.trans true.toRegion
  have betweenTrue : Region s (onTrue.enter (.br (s.blocks + 2)) (s.blocks + 1)) :=
    regionTrue.enter _ _ (by omega) (by omega) (by omega) (by omega)
  have regionFalse := betweenTrue.trans false.toRegion
  have betweenFalse : Region s (onFalse.enter (.br (s.blocks + 2)) (s.blocks + 2)) :=
    regionFalse.enter _ _ (by omega) (by omega) (by omega) (by omega)
  have regionExit := betweenFalse.trans meets.toRegion
  -- Phis in blocks of the branches are as exact as they were there.
  have inTrue : ∀ n < onTrue.blocks, n ≠ s.blocks + 2 →
      ((exit.push (.op (.phi type [(value, s.blocks), (value', s.blocks + 1)]))).ExactAt n ↔ onTrue.ExactAt n) := by
    intro n old other
    rw [exactAt_elsewhere (by omega), meets.exactAt (by simp; omega), exactAt_enter other, false.exactAt old,
      exactAt_enter other]
  have inFalse : ∀ n < onFalse.blocks, n ≠ s.blocks + 2 →
      ((exit.push (.op (.phi type [(value, s.blocks), (value', s.blocks + 1)]))).ExactAt n ↔ onFalse.ExactAt n) := by
    intro n old other
    rw [exactAt_elsewhere (by omega), meets.exactAt (by simpa using old), exactAt_enter other]
  refine ⟨regionExit.op fun _ _ _ => by omega, fun _ => ?_, fun still => absurd trivial still, ?_⟩
  · rw [show (exit.push _).current = exit.current from push_current _ _, current₇]
    omega
  have meet : (exit.push (.op (.phi type [(value, s.blocks), (value', s.blocks + 1)]))).ExactAt (s.blocks + 2) ↔
      ¬opens ∧ ¬opens' := diamond_meet sound true false meets
  rw [← meet, ← true.exact, ← false.exact]
  simp only [push_blocks, blocks₇, enter_blocks, append_blocks]
  constructor
  · refine fun all => ⟨⟨fun n new inside => ?_, fun n new inside => ?_⟩, all _ (by omega) (by omega)⟩
    · exact (inTrue n inside (by omega)).mp (all n (by omega) (by omega))
    · exact (inFalse n inside (by omega)).mp (all n (by omega) inside)
  · rintro ⟨⟨early, late⟩, here⟩ n new inside
    by_cases exits : n = s.blocks + 2
    · exact exits ▸ here
    by_cases first : n < s.blocks + 3
    · refine (inTrue n (by omega) exits).mpr ((true.exactAt (by simp; omega)).mpr (exactAt_empty ?_))
      have current := sound.current
      rw [enter_block _ _ _ _ (push_current _ _), if_neg (by simp; omega)]
      exact sound.empty new
    by_cases old : n < onTrue.blocks
    · exact (inTrue n old exits).mpr (early n (by omega) old)
    · exact (inFalse n inside exits).mpr (late n (by omega) inside)

/-- The end of `slice_slice`, where one of the branches is empty. -/
def measured (s : Building) (condition slice newLen : Llvm.Value) (type : Ty) : Building :=
  let onTrue := (s.append.append.append.enter (.condBr condition s.blocks (s.blocks + 1)) s.blocks).push
    (.op (.insertValue slice newLen 1))
  let onFalse := onTrue.enter (.br (s.blocks + 2)) (s.blocks + 1)
  (onFalse.enter (.br (s.blocks + 2)) (s.blocks + 2)).push
    (.op (.phi type [(.result s.results slice.type, s.blocks), (slice, s.blocks + 1)]))

theorem measured_codes (sound : s.Sound) (condition slice newLen : Llvm.Value) (type : Ty) :
    Codes True True s (s.measured condition slice newLen type) := by
  have starts := diamond_starts sound condition
  have inserted : Region s ((s.append.append.append.enter (.condBr condition s.blocks (s.blocks + 1)) s.blocks).push
    (.op (.insertValue slice newLen 1))) := starts.op nofun
  have between := inserted.enter (s.blocks + 2) (s.blocks + 1) (by simp) (by simp) (by omega) (by omega)
  have after := between.enter (s.blocks + 2) (s.blocks + 2) (by simp) (by simp) (by omega) (by omega)
  have true : Codes False True (s.append.append.append.enter (.condBr condition s.blocks (s.blocks + 1)) s.blocks)
      ((s.append.append.append.enter (.condBr condition s.blocks (s.blocks + 1)) s.blocks).push
        (.op (.insertValue slice newLen 1))) :=
    .of_region ((Region.refl starts.sound).op nofun) (push_current _ _) rfl
  exact (diamond sound true (.refl between.sound) (.refl after.sound)).congr Iff.rfl (by simp)

end Diamond

/-! ### Blocks without a phi -/

/-- A phi that was there before other things were emitted. -/
theorem phi_old {s s' : Building} {new : List Emitted} (emitted : s'.emitted = s.emitted ++ new)
    (plain : ∀ e ∈ new, ∀ type incoming, e ≠ .op (.phi type incoming)) {n : Nat} {instr : LlvmInstr}
    (member : instr ∈ s'.block n) (isPhi : IsPhi instr) : instr ∈ s.block n := by
  obtain ⟨context, emitted', results, blocks, globals, tables⟩ := s'
  obtain rfl : emitted' = s.emitted ++ new := emitted
  induction new using List.reverseRecOn generalizing results with
  | nil => simpa [block, walk] using member
  | append_singleton new e ih =>
    obtain ⟨before, last⟩ := List.forall_mem_append.mp plain
    let t : Building := ⟨context, s.emitted ++ new, results, blocks, globals, tables⟩
    have member : instr ∈ (t.push e).block n := by simpa [t, block, walk, push] using member
    refine ih before results ?_
    rw [push_block] at member
    split at member
    case isFalse => exact member
    case isTrue =>
      refine (List.mem_append.mp member).resolve_right fun new => ?_
      cases e with
      | op op =>
        obtain rfl : instr = .plain (t.walk.count, op) := by simpa [Walk.instr] using new
        cases op with
        | phi type incoming => exact last _ (.head _) type incoming rfl
        | _ => exact isPhi
      | br block => simp_all [Walk.instr, IsPhi]
      | condBr condition onTrue onFalse => simp_all [Walk.instr, IsPhi]
      | position block => simp [Walk.instr] at new

/-- Code with blocks of its own and without a phi. -/
theorem Codes.of_plain {s s' : Building} (new : List Emitted) (region : Region s s') (moved : s.blocks ≤ s'.current)
    (emitted : s'.emitted = s.emitted ++ new)
    (plain : ∀ e ∈ new, ∀ type incoming, e ≠ .op (.phi type incoming)) :
    Codes True True s s' where
  toRegion := region
  moves := fun _ => moved
  stays := fun still => absurd trivial still
  exact := by
    refine iff_of_true (fun n fresh _ number type incoming member => ?_) trivial
    have old := phi_old emitted plain member trivial
    simp [region.start.empty fresh] at old

section Check
variable (s : Building) (condition : Llvm.Value)

def tested : Building :=
  (s.append.append.push (.op (.not condition))).enter
    (.condBr (.result s.results condition.type) s.blocks (s.blocks + 1)) s.blocks

def checked : Building :=
  ((s.tested condition).push (.op (.call .trap []))).enter (.br (s.blocks + 1)) (s.blocks + 1)

theorem buildAssert_run : buildAssert condition s = .ok ((), s.checked condition) := rfl

variable {s}

theorem tested_region (sound : s.Sound) : Region s (s.tested condition) := by
  have opened : Region s (s.append.append.push (.op (.not condition))) := (Region.refl sound).append.append.op nofun
  exact (opened.condBr (Nat.le_refl _) (Nat.le_succ _) (by simp) (by simp)).goes (Nat.le_refl _) (by simp)

theorem checked_codes (sound : s.Sound) : Codes True True s (s.checked condition) := by
  have trapped : Region s ((s.tested condition).push (.op (.call .trap []))) := (tested_region condition sound).op nofun
  have blocks : (s.tested condition).blocks = s.blocks + 2 := rfl
  refine .of_plain [.op (.not condition), .condBr (.result s.results condition.type) s.blocks (s.blocks + 1),
    .position s.blocks, .op (.call .trap []), .br (s.blocks + 1), .position (s.blocks + 1)]
    (trapped.enter _ _ (by simp [blocks]) (by simp [blocks]) (Nat.le_succ _) (Nat.le_succ _)) ?_ ?_ (by simp)
  · simp [checked]
  · simp [checked, Building.tested, enter, push, append]

end Check

/-! ### The loop of `codegen_array_new` -/

section Loop
variable (s : Building) (element : Ty) (size : Llvm.Value)

def arrptr : Llvm.Value := .result s.results (.ptr element)

def cntrptr : Llvm.Value := .result (s.results + 1) (.ptr size.type)

def cntr : Llvm.Value := .result (s.results + 3) size.type

def counting : Building :=
  (((s.push (.op (.arrayMalloc element size))).push (.op (.alloca size.type))).push
    (.op (.store size (s.cntrptr size)))).append.append.append.enter (.br s.blocks) s.blocks

def turning : Building :=
  (((s.counting element size).push (.op (.load (s.cntrptr size)))).push
    (.op (.icmp .sle (.constNull size.type) (s.cntr size)))).enter
      (.condBr (.result (s.results + 4) (.int 1)) (s.blocks + 1) (s.blocks + 2)) (s.blocks + 1)

def zeroed : Building :=
  (((((s.turning element size).push (.op (.gep (s.arrptr element) (s.cntr size) []))).push
    (.op (.store (.constNull element) (.result (s.results + 5) (.ptr element))))).push
      (.op (.int .sub (s.cntr size) (.constInt size.type 1)))).push
        (.op (.store (.result (s.results + 7) size.type) (s.cntrptr size)))).enter (.br s.blocks) (s.blocks + 2)

theorem codegenArrayNew_run : codegenArrayNew element size s = .ok (s.arrptr element, s.zeroed element size) := by
  simp [-bind_pure_comp, codegenArrayNew, Stateful.bind_apply, build, emit, appendBlock, zeroed, turning, counting,
    enter, push, append, arrptr, cntrptr, cntr, Op.type, Ty.index, Emitted.op?]

variable {s}

theorem counting_region (sound : s.Sound) : Region s (s.counting element size) := by
  have allocated : Region s (((s.push (.op (.arrayMalloc element size))).push (.op (.alloca size.type))).push
    (.op (.store size (s.cntrptr size)))) := (((Region.refl sound).op (by simp)).op (by simp)).op (by simp)
  exact allocated.append.append.append.enter _ _ (by simp; omega) (by simp; omega) (Nat.le_refl _) (Nat.le_refl _)

theorem turning_region (sound : s.Sound) : Region s (s.turning element size) := by
  have counted : Region s (((s.counting element size).push (.op (.load (s.cntrptr size)))).push
    (.op (.icmp .sle (.constNull size.type) (s.cntr size)))) := ((counting_region element size sound).op (by simp)).op (by simp)
  have blocks : (s.counting element size).blocks = s.blocks + 3 := rfl
  exact (counted.condBr (Nat.le_succ _) (Nat.le_add_right _ _) (by simp [blocks]) (by simp [blocks])).goes
    (Nat.le_succ _) (by simp [blocks])

theorem zeroed_codes (sound : s.Sound) : Codes True True s (s.zeroed element size) := by
  have stored : Region s (((((s.turning element size).push (.op (.gep (s.arrptr element) (s.cntr size) []))).push
    (.op (.store (.constNull element) (.result (s.results + 5) (.ptr element))))).push
      (.op (.int .sub (s.cntr size) (.constInt size.type 1)))).push
        (.op (.store (.result (s.results + 7) size.type) (s.cntrptr size)))) :=
    ((((turning_region element size sound).op (by simp)).op (by simp)).op (by simp)).op (by simp)
  have blocks : (s.turning element size).blocks = s.blocks + 3 := rfl
  refine .of_plain [.op (.arrayMalloc element size), .op (.alloca size.type), .op (.store size (s.cntrptr size)),
    .br s.blocks, .position s.blocks, .op (.load (s.cntrptr size)),
    .op (.icmp .sle (.constNull size.type) (s.cntr size)),
    .condBr (.result (s.results + 4) (.int 1)) (s.blocks + 1) (s.blocks + 2), .position (s.blocks + 1),
    .op (.gep (s.arrptr element) (s.cntr size) []),
    .op (.store (.constNull element) (.result (s.results + 5) (.ptr element))),
    .op (.int .sub (s.cntr size) (.constInt size.type 1)),
    .op (.store (.result (s.results + 7) size.type) (s.cntrptr size)), .br s.blocks, .position (s.blocks + 2)]
    (stored.enter _ _ (by simp [blocks]) (by simp [blocks]) (Nat.le_refl _) (Nat.le_add_right _ _)) ?_ ?_ (by simp)
  · simp [zeroed]
  · simp [zeroed, turning, counting, enter, push, append]

theorem zeroed_results : (s.zeroed element size).results = s.results + 9 := by
  simp [zeroed, turning, counting, enter, append, Emitted.op?]

end Loop

end Building

/-- The steps of `codegen_conditional_expr`. -/
theorem codegenConditionalExpr_ok {fuel : Nat} {codegen : Expr → Bool → Codegen Llvm.Value}
    {condition trueExpr falseExpr : Expr} {lvalue : Bool} {s s' : Building} {value : Llvm.Value}
    (run : codegenConditionalExpr fuel codegen condition trueExpr falseExpr lvalue s = .ok (value, s')) :
    ∃ cond s₁ trueValue s₂ falseValue s₃ t s₄, codegen condition false s = .ok (cond, s₁) ∧
      codegen trueExpr false (s₁.append.append.append.enter (.condBr cond s₁.blocks (s₁.blocks + 1)) s₁.blocks) =
        .ok (trueValue, s₂) ∧
      codegen falseExpr false (s₂.enter (.br (s₁.blocks + 2)) (s₁.blocks + 1)) = .ok (falseValue, s₃) ∧
      llvmType fuel trueExpr.type (s₃.enter (.br (s₁.blocks + 2)) (s₁.blocks + 2)) = .ok (t, s₄) ∧
      .result s₄.results t = value ∧
      s₄.push (.op (.phi t [(trueValue, s₁.blocks), (falseValue, s₁.blocks + 1)])) = s' := by
  obtain ⟨_, s₀, same, run⟩ := Stateful.bind_ok.mp run
  obtain rfl : s = s₀ := by
    cases lvalue with
    | true => cases same
    | false => cases same; rfl
  obtain ⟨cond, s₁, condRun, run⟩ := Stateful.bind_ok.mp run
  obtain ⟨_, _, same, run⟩ := Stateful.bind_ok.mp run
  cases same
  obtain ⟨_, _, same, run⟩ := Stateful.bind_ok.mp run
  cases same
  obtain ⟨_, _, same, run⟩ := Stateful.bind_ok.mp run
  cases same
  obtain ⟨_, _, same, run⟩ := Stateful.bind_ok.mp run
  cases same
  obtain ⟨_, _, same, run⟩ := Stateful.bind_ok.mp run
  cases same
  obtain ⟨trueValue, s₂, trueRun, run⟩ := Stateful.bind_ok.mp run
  obtain ⟨_, _, same, run⟩ := Stateful.bind_ok.mp run
  cases same
  obtain ⟨_, _, same, run⟩ := Stateful.bind_ok.mp run
  cases same
  obtain ⟨falseValue, s₃, falseRun, run⟩ := Stateful.bind_ok.mp run
  obtain ⟨_, _, same, run⟩ := Stateful.bind_ok.mp run
  cases same
  obtain ⟨_, _, same, run⟩ := Stateful.bind_ok.mp run
  cases same
  obtain ⟨t, s₄, translated, run⟩ := Stateful.bind_ok.mp run
  cases run
  exact ⟨cond, s₁, trueValue, s₂, falseValue, s₃, t, s₄, condRun, trueRun, falseRun, translated, rfl, rfl⟩

end Low
