import LowCompiler.Codegen.Growth
import LowCompiler.Llvm.Execution

/-!
# The graph that is built

What the builder was told makes a graph of blocks. The code for an expression goes to the
block that the builder stands in and to blocks of its own, and nothing in it leads to a
block that was there before.
-/

namespace Low

open Stateful
open Llvm (Op Ty)

abbrev LlvmInstr := Instr (Nat × Op) Llvm.Value

def Instr.Targets {I V : Type} : Instr I V → Nat → Prop
  | .br block, n => n = block
  | .condBr _ onTrue onFalse, n => n = onTrue ∨ n = onFalse
  | _, _ => False

def IsPhi : LlvmInstr → Prop
  | .plain (_, .phi _ _) => True
  | _ => False

namespace Emitted

def Targets : Emitted → Nat → Prop
  | .br block, n => n = block
  | .condBr _ onTrue onFalse, n => n = onTrue ∨ n = onFalse
  | _, _ => False

/-- Only such blocks are named. -/
def Inside (blocks : Nat) : Emitted → Prop
  | .op _ => True
  | .br block | .position block => block < blocks
  | .condBr _ onTrue onFalse => onTrue < blocks ∧ onFalse < blocks

theorem Inside.mono {blocks blocks' : Nat} (le : blocks ≤ blocks') {e : Emitted} (inside : e.Inside blocks) :
    e.Inside blocks' := by
  cases e with
  | op op => trivial
  | br block => exact Nat.lt_of_lt_of_le inside le
  | condBr condition onTrue onFalse => exact ⟨Nat.lt_of_lt_of_le inside.1 le, Nat.lt_of_lt_of_le inside.2 le⟩
  | position block => exact Nat.lt_of_lt_of_le inside le

end Emitted

/-- A later context of the same scope, in which no declaration has come to a name. -/
structure Context.Gains (c c' : Context) : Prop extends c.Extends c' where
  undeclared : ∀ symbol ∈ c'.symbols, symbol ∈ c.symbols ∨ symbol.decl = none

namespace Context.Gains
variable {c c' c'' : Context}

theorem refl (c : Context) : c.Gains c where
  toExtends := .refl c
  undeclared := fun _ member => .inl member

theorem trans (first : c.Gains c') (second : c'.Gains c'') : c.Gains c'' where
  toExtends := first.toExtends.trans second.toExtends
  undeclared := fun symbol member => (second.undeclared symbol member).elim (first.undeclared symbol) .inr

theorem addMembers (c : Context) (interface : Option AstType) (members : List (InterfaceMember AstType)) :
    c.Gains (c.addMembers interface members) where
  toExtends := .addMembers c interface members
  undeclared := by
    intro symbol member
    refine (List.mem_append.mp member).imp id fun new => ?_
    obtain ⟨i, inside, same⟩ := List.mem_iff_getElem.mp new
    rw [← same]
    simp [memberSymbols, memberSymbol]

theorem codegenType {fuel : Nat} {type : AstType} {l : Ty} (before : c.Gains c')
    (run : codegenType fuel type c' = .ok (l, c'')) : c.Gains c'' := by
  induction fuel generalizing type c' c'' l with
  | zero => cases run
  | succ fuel ih =>
    obtain ⟨pointer, kind⟩ := type
    obtain ⟨l', run, _⟩ := codegenType_ok run
    exact (codegenTypeKind_ok (I := c.Gains) (fun u _ c₁ l c₂ held run => ih held run)
      (fun members interface c₁ _ held => held.trans (.addMembers c₁ interface members)) before run).1

/-- A name that stands for a declaration did so before. -/
theorem declared (gains : c.Gains c') {name : Name} {symbol : CodegenSymbol} {decl : Nat}
    (found : c'.findSymbol name = some symbol) (is : symbol.decl = some decl) :
    c.findSymbol name = some symbol := by
  obtain ⟨added, same, plain⟩ := gains.symbols
  rw [Context.findSymbol, same, gains.prev, List.findSome?_cons, List.find?_append] at found
  rw [Context.findSymbol, List.findSome?_cons]
  cases inner : c.symbols.find? fun symbol => symbol.name = some name with
  | some first => simpa [inner] using found
  | none =>
    cases new : added.find? fun symbol => symbol.name = some name with
    | none => simpa [inner, new] using found
    | some member =>
      obtain rfl : member = symbol := by simpa [inner, new] using found
      have there : member ∈ c'.symbols := by
        rw [same]
        exact List.mem_append_right _ (List.mem_of_find?_eq_some new)
      rcases gains.undeclared member there with old | none
      · have named := List.find?_some new
        have absent := List.find?_eq_none.mp inner member old
        exact absurd named absent
      · cases none.symm.trans is

end Context.Gains

/-! ### Blocks -/

/-- The block that the builder stands in, the number of the next instruction, and the code so far. -/
structure Walk where
  current : Nat
  count : Nat
  code : Llvm.Graph

namespace Walk

/-- The instruction that goes to the block, if one does. -/
def instr (w : Walk) : Emitted → Option LlvmInstr
  | .op op => some (.plain (w.count, op))
  | .br block => some (.br block)
  | .condBr condition onTrue onFalse => some (.condBr condition onTrue onFalse)
  | .position _ => none

def next (w : Walk) (e : Emitted) : Walk where
  current := match e with
    | .position block => block
    | _ => w.current
  count := w.count + e.op?.toList.length
  code := Function.update w.code w.current (w.code w.current ++ (w.instr e).toList)

/-- A function begins in its first block. -/
def entry : Walk := ⟨0, 0, fun _ => []⟩

end Walk

namespace Building
variable (s : Building)

def walk : Walk := s.emitted.foldl Walk.next .entry

def current : Nat := s.walk.current

def block : Llvm.Graph := s.walk.code

def Branches (m n : Nat) : Prop := ∃ instr ∈ s.block m, instr.Targets n

/-- What is emitted, and the number that an instruction takes. -/
def push (e : Emitted) : Building :=
  { s with emitted := s.emitted ++ [e], results := s.results + e.op?.toList.length }

theorem walk_push (e : Emitted) : (s.push e).walk = s.walk.next e := by
  simp [walk, push]

@[simp] theorem push_results (e : Emitted) : (s.push e).results = s.results + e.op?.toList.length := rfl

@[simp] theorem push_blocks (e : Emitted) : (s.push e).blocks = s.blocks := rfl

@[simp] theorem push_context (e : Emitted) : (s.push e).context = s.context := rfl

theorem push_current (e : Emitted) : (s.push e).current = match e with
    | .position block => block
    | _ => s.current := by
  simp only [current, walk_push]
  rfl

@[simp] theorem push_position (block : Nat) : (s.push (.position block)).current = block := push_current s _

@[simp] theorem push_op_current (op : Op) : (s.push (.op op)).current = s.current := push_current s _

theorem push_block (e : Emitted) (n : Nat) :
    (s.push e).block n = if n = s.current then s.block n ++ (s.walk.instr e).toList else s.block n := by
  simp only [block, current, walk_push, Walk.next, Function.update_apply]
  by_cases here : n = s.walk.current <;> simp [here]

theorem instr_targets {e : Emitted} {instr : LlvmInstr} (is : s.walk.instr e = some instr) (n : Nat) :
    instr.Targets n ↔ e.Targets n := by
  cases e <;> cases is <;> rfl

theorem push_branches (e : Emitted) (m n : Nat) :
    (s.push e).Branches m n ↔ s.Branches m n ∨ m = s.current ∧ e.Targets n := by
  rw [Branches, Branches, push_block]
  split
  case isFalse other => simp [other]
  case isTrue here =>
    cases is : s.walk.instr e with
    | none => cases e <;> simp_all [Walk.instr, Emitted.Targets]
    | some instr => simp [List.mem_append, or_and_right, exists_or, here, instr_targets s is]

theorem walk_count : s.walk.count = s.ops.length := by
  have run (emitted : List Emitted) (w : Walk) :
      (emitted.foldl Walk.next w).count = w.count + (emitted.filterMap Emitted.op?).length := by
    induction emitted generalizing w with
    | nil => rfl
    | cons e emitted ih =>
      rw [List.foldl_cons, ih, List.filterMap_cons]
      cases e with
      | op op =>
        simp [Walk.next, Emitted.op?]
        omega
      | _ => simp [Walk.next, Emitted.op?]
  rw [walk, run, ops]
  simp [Walk.entry]

theorem numbered_push {s : Building} (numbered : s.Numbered) (e : Emitted) : (s.push e).Numbered := by
  have same : s.results = s.ops.length := numbered
  cases e <;> simp [Numbered, push, same, ops, Emitted.op?]

/-! ### Buildings of the code generator -/

/-- The blocks that are named exist, and the symbols stand for values that are there. -/
structure Sound (s : Building) : Prop where
  numbered : s.Numbered
  entered : 0 < s.blocks
  inside : ∀ e ∈ s.emitted, e.Inside s.blocks
  known : ∀ symbols ∈ s.context.symbols :: s.context.prev, ∀ symbol ∈ symbols, ∀ value, symbol.value = some value →
    value.Below s.results

namespace Sound
variable {s : Building}

theorem walk (sound : s.Sound) : s.current < s.blocks ∧ (∀ n, s.blocks ≤ n → s.block n = []) ∧
    ∀ m n, s.Branches m n → n < s.blocks := by
  obtain ⟨context, emitted, results, blocks, globals, tables⟩ := s
  have inside : ∀ e ∈ emitted, e.Inside blocks := sound.inside
  have entered : 0 < blocks := sound.entered
  clear sound
  induction emitted using List.reverseRecOn generalizing results with
  | nil => exact ⟨entered, fun _ _ => rfl, fun m n branches => by simp [Branches, block, Building.walk, Walk.entry] at branches⟩
  | append_singleton emitted e ih =>
    obtain ⟨before, last⟩ := List.forall_mem_append.mp inside
    have last := last e (.head _)
    let s : Building := ⟨context, emitted, results, blocks, globals, tables⟩
    obtain ⟨current, empty, targets⟩ : s.current < blocks ∧ (∀ n, blocks ≤ n → s.block n = []) ∧
      ∀ m n, s.Branches m n → n < blocks := ih results before
    refine ⟨?_, fun n out => ?_, fun m n branches => ?_⟩
    · refine (push_current s e).trans_lt ?_
      cases e with
      | position block => exact last
      | _ => exact current
    · have outside : n ≠ s.current := Nat.ne_of_gt (Nat.lt_of_lt_of_le current out)
      exact (push_block s e n).trans ((if_neg outside).trans (empty n out))
    · rcases (push_branches s e m n).mp branches with old | ⟨_, new⟩
      · exact targets m n old
      · cases e with
        | op op => cases new
        | br block => exact new ▸ last
        | condBr condition onTrue onFalse => exact new.elim (· ▸ last.1) (· ▸ last.2)
        | position block => cases new

theorem current (sound : s.Sound) : s.current < s.blocks := sound.walk.1

theorem empty (sound : s.Sound) {n : Nat} (out : s.blocks ≤ n) : s.block n = [] := sound.walk.2.1 n out

theorem target (sound : s.Sound) {m n : Nat} (branches : s.Branches m n) : n < s.blocks :=
  sound.walk.2.2 m n branches

theorem count (sound : s.Sound) : s.walk.count = s.results := (walk_count s).trans sound.numbered.symm

theorem push (sound : s.Sound) {e : Emitted} (inside : e.Inside s.blocks) : (s.push e).Sound where
  numbered := numbered_push sound.numbered e
  entered := sound.entered
  inside := List.forall_mem_append.mpr ⟨sound.inside, List.forall_mem_singleton.mpr inside⟩
  known := fun symbols member symbol there value is =>
    (sound.known symbols member symbol there value is).mono (Nat.le_add_right _ _)

/-- `LLVMAppendBasicBlock`. -/
theorem append (sound : s.Sound) : ({ s with blocks := s.blocks + 1 } : Building).Sound where
  numbered := sound.numbered
  entered := Nat.succ_pos _
  inside := fun e member => (sound.inside e member).mono (Nat.le_succ _)
  known := sound.known

theorem gain {context : Context} (sound : s.Sound) (gains : s.context.Gains context) :
    ({ s with context := context } : Building).Sound where
  numbered := sound.numbered
  entered := sound.entered
  inside := sound.inside
  known := by
    obtain ⟨added, same, plain⟩ := gains.symbols
    intro symbols member symbol there value is
    rcases List.mem_cons.mp member with rfl | outer
    · rw [same] at there
      rcases List.mem_append.mp there with old | new
      · exact sound.known _ (.head _) symbol old value is
      · cases (plain symbol new).2.2.symm.trans is
    · exact sound.known symbols (.tail _ (gains.prev ▸ outer)) symbol there value is

end Sound

/-! ### Code in blocks of its own -/

/-- What was built since is in the block that was current then and in new blocks, and leads only to
new ones. -/
structure Region (s s' : Building) : Prop where
  start : s.Sound
  sound : s'.Sound
  context : s.context.Gains s'.context
  results : s.results ≤ s'.results
  blocks : s.blocks ≤ s'.blocks
  frame : ∀ n < s.blocks, n ≠ s.current → s'.block n = s.block n
  added : ∃ code, s'.block s.current = s.block s.current ++ code ∧ ∀ instr ∈ code, ¬IsPhi instr
  branches : ∀ m n, n < s.blocks → (s'.Branches m n ↔ s.Branches m n)
  position : s'.current = s.current ∨ s.blocks ≤ s'.current

namespace Region
variable {s s' s'' : Building}

theorem refl (sound : s.Sound) : Region s s where
  start := sound
  sound := sound
  context := .refl _
  results := Nat.le_refl _
  blocks := Nat.le_refl _
  frame := fun _ _ _ => rfl
  added := ⟨[], (List.append_nil _).symm, fun _ member => absurd member List.not_mem_nil⟩
  branches := fun _ _ _ => Iff.rfl
  position := .inl rfl

theorem trans (first : Region s s') (second : Region s' s'') : Region s s'' where
  start := first.start
  sound := second.sound
  context := first.context.trans second.context
  results := Nat.le_trans first.results second.results
  blocks := Nat.le_trans first.blocks second.blocks
  frame := by
    intro n old other
    have here : n ≠ s'.current := by
      rcases first.position with same | new
      · rwa [same]
      · exact Nat.ne_of_lt (Nat.lt_of_lt_of_le old new)
    rw [second.frame n (Nat.lt_of_lt_of_le old first.blocks) here, first.frame n old other]
  added := by
    obtain ⟨code, built, plain⟩ := first.added
    have inside := first.start.current
    rcases first.position with same | new
    · obtain ⟨more, built', plain'⟩ := second.added
      rw [same] at built'
      refine ⟨code ++ more, by rw [built', built, List.append_assoc], ?_⟩
      exact List.forall_mem_append.mpr ⟨plain, plain'⟩
    · refine ⟨code, ?_, plain⟩
      rw [second.frame _ (Nat.lt_of_lt_of_le inside first.blocks) (Nat.ne_of_lt (Nat.lt_of_lt_of_le inside new)), built]
  branches := fun m n old =>
    (second.branches m n (Nat.lt_of_lt_of_le old first.blocks)).trans (first.branches m n old)
  position := by
    rcases second.position with same | new
    · exact same ▸ first.position
    · exact .inr (Nat.le_trans first.blocks new)

theorem push (region : Region s s') {e : Emitted} (inside : e.Inside s'.blocks)
    (phi : ∀ type incoming, e = .op (.phi type incoming) → s.blocks ≤ s'.current)
    (targets : ∀ n, e.Targets n → s.blocks ≤ n) (goes : ∀ block, e = .position block → s.blocks ≤ block) :
    Region s (s'.push e) where
  start := region.start
  sound := region.sound.push inside
  context := region.context
  results := Nat.le_trans region.results (Nat.le_add_right _ _)
  blocks := region.blocks
  frame := by
    intro n old other
    have here : n ≠ s'.current := by
      rcases region.position with same | new
      · rwa [same]
      · exact Nat.ne_of_lt (Nat.lt_of_lt_of_le old new)
    rw [push_block, if_neg here, region.frame n old other]
  added := by
    obtain ⟨code, built, plain⟩ := region.added
    rw [push_block]
    split
    case isFalse => exact ⟨code, built, plain⟩
    case isTrue here =>
      refine ⟨code ++ (s'.walk.instr e).toList, by rw [built, List.append_assoc], ?_⟩
      refine List.forall_mem_append.mpr ⟨plain, fun instr member isPhi => ?_⟩
      cases e with
      | op op =>
        obtain rfl : instr = .plain (s'.walk.count, op) := by simpa [Walk.instr] using member
        cases op with
        | phi type incoming =>
          have := phi type incoming rfl
          have := region.start.current
          omega
        | _ => exact isPhi
      | br block =>
        obtain rfl : instr = .br block := by simpa [Walk.instr] using member
        exact isPhi
      | condBr condition onTrue onFalse =>
        obtain rfl : instr = .condBr condition onTrue onFalse := by simpa [Walk.instr] using member
        exact isPhi
      | position block => simp [Walk.instr] at member
  branches := by
    intro m n old
    rw [push_branches, region.branches m n old, or_iff_left]
    exact fun new => Nat.not_le_of_lt old (targets n new.2)
  position := by
    rw [push_current]
    cases e with
    | position block => exact .inr (goes block rfl)
    | _ => exact region.position

theorem op (region : Region s s') {op : Op}
    (phi : ∀ type incoming, op = .phi type incoming → s.blocks ≤ s'.current) :
    Region s (s'.push (.op op)) :=
  region.push trivial (fun type incoming same => phi type incoming (Emitted.op.inj same)) nofun nofun

theorem br (region : Region s s') {block : Nat} (new : s.blocks ≤ block) (inside : block < s'.blocks) :
    Region s (s'.push (.br block)) :=
  region.push inside nofun (fun _ same => same ▸ new) nofun

theorem condBr (region : Region s s') {condition : Llvm.Value} {onTrue onFalse : Nat} (new : s.blocks ≤ onTrue)
    (new' : s.blocks ≤ onFalse) (inside : onTrue < s'.blocks) (inside' : onFalse < s'.blocks) :
    Region s (s'.push (.condBr condition onTrue onFalse)) :=
  region.push ⟨inside, inside'⟩ nofun (fun _ same => same.elim (· ▸ new) (· ▸ new')) nofun

theorem goes (region : Region s s') {block : Nat} (new : s.blocks ≤ block) (inside : block < s'.blocks) :
    Region s (s'.push (.position block)) :=
  region.push inside nofun nofun fun _ same => Emitted.position.inj same ▸ new

theorem append (region : Region s s') : Region s { s' with blocks := s'.blocks + 1 } :=
  { region with
    sound := region.sound.append
    blocks := Nat.le_succ_of_le region.blocks }

theorem gain {context : Context} (region : Region s s') (gains : s'.context.Gains context) :
    Region s { s' with context := context } :=
  { region with
    sound := region.sound.gain gains
    context := region.context.trans gains }

end Region

/-! ### Phis -/

/-- Each phi of the block takes its values from the blocks that lead there, and from no others. -/
def ExactAt (s : Building) (n : Nat) : Prop :=
  ∀ number type incoming, .plain (number, .phi type incoming) ∈ s.block n →
    ∀ m, (∃ value, (value, m) ∈ incoming) ↔ s.Branches m n

theorem Region.exactAt {s s' : Building} (region : Region s s') {n : Nat} (old : n < s.blocks) :
    s'.ExactAt n ↔ s.ExactAt n := by
  have same (number : Nat) (type : Ty) (incoming : List (Llvm.Value × Nat)) :
      .plain (number, .phi type incoming) ∈ s'.block n ↔ .plain (number, .phi type incoming) ∈ s.block n := by
    by_cases here : n = s.current
    · obtain ⟨code, built, plain⟩ := region.added
      rw [here, built, List.mem_append, or_iff_left]
      exact fun new => plain _ new trivial
    · rw [region.frame n old here]
  simp only [ExactAt, same, region.branches _ n old]

/-- The code of an expression. `opens` says that the builder goes on in another block, and `flat`
that its phis are exact. -/
structure Codes (opens flat : Prop) (s s' : Building) : Prop extends Region s s' where
  moves : opens → s.blocks ≤ s'.current
  stays : ¬opens → s'.current = s.current ∧ s'.blocks = s.blocks
  exact : (∀ n, s.blocks ≤ n → n < s'.blocks → s'.ExactAt n) ↔ flat

namespace Codes
variable {opens opens' flat flat' : Prop} {s s' s'' : Building}

theorem congr (codes : Codes opens flat s s') (sameOpens : opens ↔ opens') (sameFlat : flat ↔ flat') :
    Codes opens' flat' s s' := by
  rwa [← propext sameOpens, ← propext sameFlat]

theorem trans (first : Codes opens flat s s') (second : Codes opens' flat' s' s'') :
    Codes (opens ∨ opens') (flat ∧ flat') s s'' where
  toRegion := first.toRegion.trans second.toRegion
  moves := by
    intro moved
    by_cases later : opens'
    · exact Nat.le_trans first.blocks (second.moves later)
    · rw [(second.stays later).1]
      exact first.moves (moved.resolve_right later)
  stays := by
    intro still
    obtain ⟨none, none'⟩ := not_or.mp still
    obtain ⟨current, blocks⟩ := first.stays none
    obtain ⟨current', blocks'⟩ := second.stays none'
    exact ⟨current'.trans current, blocks'.trans blocks⟩
  exact := by
    rw [← first.exact, ← second.exact]
    constructor
    · refine fun all => ⟨fun n new inside => ?_, fun n new inside => all n (Nat.le_trans first.blocks new) inside⟩
      exact (second.exactAt inside).mp (all n new (Nat.lt_of_lt_of_le inside second.blocks))
    · rintro ⟨early, late⟩ n new inside
      by_cases old : n < s'.blocks
      · exact (second.exactAt old).mpr (early n new old)
      · exact late n (Nat.le_of_not_lt old) inside

theorem of_region (region : Region s s') (current : s'.current = s.current) (blocks : s'.blocks = s.blocks) :
    Codes False True s s' where
  toRegion := region
  moves := False.elim
  stays := fun _ => ⟨current, blocks⟩
  exact := iff_of_true (fun _ new inside => absurd (blocks ▸ inside) (Nat.not_lt_of_le new)) trivial

theorem refl (sound : s.Sound) : Codes False True s s := of_region (.refl sound) rfl rfl

end Codes

end Building

end Low
