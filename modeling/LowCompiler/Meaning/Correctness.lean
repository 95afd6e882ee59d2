import LowCompiler.Codegen.CompoundAssignments
import LowCompiler.Meaning.Operations

/-!
# Compiled expressions

A run of the code for an expression does what the expression means, and comes to its value.
-/

namespace Low

open Stateful
open Llvm (Platform Activation Datum Pointer)

/-- Where a conditional is part of the code, its branches open no blocks and add nothing to the
scope. -/
def Joins (c : Context) (decls : List Decl) (e : Expr) : Prop :=
  ∀ loc type condition trueExpr falseExpr,
    Relation.ReflTransGen (Part c decls) e (.mk loc type (.conditionalExpr condition trueExpr falseExpr)) →
      ∀ branch ∈ [trueExpr, falseExpr], ¬Opens c decls branch ∧ ∀ fuel, Simulates.Leaves c (codegenExpr decls fuel) branch

theorem Joins.part {c : Context} {decls : List Decl} {e p : Expr} (joins : Joins c decls e) (part : Part c decls e p) :
    Joins c decls p :=
  fun loc type condition trueExpr falseExpr parts => joins loc type condition trueExpr falseExpr (.head part parts)

section Means
variable {M : Type} {setting : Setting M} {decls : List Decl} {codegen : Expr → Bool → Codegen Llvm.Value}
  {locate : Expr → Evaluation M Lvalue} {evaluate : Expr → Evaluation M Rvalue} {perform : Expr → Evaluation M Unit} {e : Expr}

/-- An expression whose value is read from its place. -/
theorem Means.read (reads : evaluate e = do readAt setting (← locate e))
    (both : ∀ n r lvalue, setting.Knows decls n r →
      Simulates setting.platform setting.context n r (codegen e lvalue) (locate e >>= access setting lvalue) (Stands setting.platform))
    (effect : ∀ n r, setting.Knows decls n r →
      Simulates setting.platform setting.context n r (codegen e false) (perform e) fun _ _ _ _ => True) :
    Means setting decls codegen locate evaluate perform e where
  place n r knows := .address (both n r true knows)
  value n r knows := reads ▸ both n r false knows
  effect := effect

end Means

def World.of {M : Type} (x : Activation M) : World M := ⟨x.memory, x.objects, []⟩

section Runs
variable {M α β : Type} {setting : Setting M} {decls : List Decl} {e : Expr} {s s' : Building} {x : Activation M}

variable (joins : Joins setting.context decls e) (sound : s.Sound) (same : s.context = setting.context) (here : s.Here x)
  (knows : setting.Knows decls s.results x.registers) {fuel k : Nat} {value : Llvm.Value}
include joins sound same here knows

end Runs

end Low
