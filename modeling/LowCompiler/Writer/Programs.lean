import LowCompiler.Writer.Statements

/-!
# Writing programs

The text of a program is lexed, derived and reduced to the program.
-/

namespace Low

def writeParam (param : FuncParam) : List Word := (param.name.map name).toList ++ writeType param.type

def writeParams (params : List FuncParam) (variadic : Bool) : List Word :=
  match params, variadic with
  | [], false => []
  | [], true => [sign .ELLIPSIS]
  | params, false => commas (params.map writeParam)
  | params, true => commas (params.map writeParam) ++ [sign .COMMA, sign .ELLIPSIS]

def writeFunc (func : FuncUnit) : List Word :=
  sign .FUNC :: name func.name :: sign .LPAREN ::
    (writeParams func.params func.variadic ++ sign .RPAREN :: (writeType func.returnType ++ writeBody func.body))

def writeUnit (unit : AstUnit) : List Word :=
  match unit.kind with
  | .importUnit n => [sign .IMPORT, quoted n, sign .SEMICOLON]
  | .declUnit decl => writeDecl decl
  | .funcUnit func => writeFunc func
  | .typeUnit n type => sign .TYPE :: name n :: sign .COLON :: (writeType type ++ [sign .SEMICOLON])
  | .packageUnit n => [sign .PACKAGE, quoted n, sign .SEMICOLON]

/-- A program of no unit is a semicolon. -/
def writeProgram : List AstUnit → List Word
  | [] => [sign .SEMICOLON]
  | units => joined [] (units.map writeUnit)

def FuncParam.Writable (param : FuncParam) : Prop := param.type.Writable ∧ ∀ n ∈ param.name, IsIdent n

def FuncUnit.Writable (func : FuncUnit) : Prop :=
  IsIdent func.name ∧ func.returnType.Writable ∧ (∀ param ∈ func.params, param.Writable) ∧
    ∀ s ∈ func.body, s.isCompound = true ∧ s.Writable

/-- A text between quotes without an escape. -/
def IsPlainText (n : Name) : Prop := 0 ∉ n ∧ '"'.toUInt8 ∉ n ∧ '\\'.toUInt8 ∉ n

def AstUnit.Writable (unit : AstUnit) : Prop :=
  match unit.kind with
  | .importUnit n | .packageUnit n => IsPlainText n
  | .declUnit decl => decl.Writable
  | .funcUnit func => func.Writable
  | .typeUnit n type => IsIdent n ∧ type.Writable

/-! ### Written units are read back -/

section Parses
variable {source : Memory} {ruleIds : Rule → Nat} {v w : List Word}

theorem parses_parameter {param : FuncParam} (writable : param.Writable) :
    Parses source ruleIds [SUB .parameter] (writeParam param) [Holds .param param] := by
  obtain ⟨type, n⟩ := param
  have front : Parses source ruleIds [SUB .type] (writeType type) [Holds .type type] := parses_type writable.1
  cases n with
  | none =>
    refine Parses.node (p := ⟨.parameter, 0⟩) (by decide) front ?_
    intro tokens hold
    obtain _ | ⟨@⟨_, _, _, _, type', same⟩, _ | _⟩ := hold
    obtain rfl : type' = type := same
    exact ⟨_, rfl, .mk _ _ _ _ rfl⟩
  | some n =>
    refine Parses.node (p := ⟨.parameter, 1⟩) (by decide) ((parses_name (writable.2 n rfl)).cons front) ?_
    intro tokens hold
    obtain _ | ⟨⟨_, _, _, read⟩, _ | ⟨@⟨_, _, _, _, type', same⟩, _ | _⟩⟩ := hold
    obtain rfl : type' = type := same
    refine ⟨_, rfl, .mk _ _ _ _ ?_⟩
    rw [read]

theorem parameter_list : IsListRule .parameterList .parameter (some .COMMA) .param .parameterList :=
  ⟨rfl, rfl, by decide, by decide, fun _ _ _ => .inl rfl⟩

/-- A function of which the body is not read yet. -/
def funcDeclared (func : FuncUnit) : AstUnit := ⟨.zero, .funcUnit { func with body := none }⟩

def writeHeader (func : FuncUnit) : List Word :=
  sign .FUNC :: name func.name :: sign .LPAREN ::
    (writeParams func.params func.variadic ++ sign .RPAREN :: writeType func.returnType)

theorem parses_header {func : FuncUnit} (writable : func.Writable) :
    Parses source ruleIds [SUB .funcUnitDecl] (writeHeader func) [Holds .unit (funcDeclared func)] := by
  obtain ⟨returnType, n, body, params, variadic⟩ := func
  obtain ⟨ident, typed, each, _⟩ := writable
  have last : Parses source ruleIds [SUB .type] (writeType returnType) [Holds .type returnType] := parses_type typed
  unfold writeHeader writeParams
  by_cases none : params = []
  · subst none
    cases variadic with
    | false =>
      refine Parses.node (p := ⟨.funcUnitDecl, 4⟩) (by decide)
        (Parses.sign (by decide) ((parses_name ident).cons (Parses.sign (by decide) (Parses.sign (by decide) last)))) ?_
      intro tokens hold
      obtain _ | ⟨⟨_⟩, _ | ⟨⟨_, _, _, read⟩, _ | ⟨⟨_⟩, _ | ⟨⟨_⟩, _ | ⟨@⟨_, _, _, _, type, same⟩, _ | _⟩⟩⟩⟩⟩ := hold
      obtain rfl : type = returnType := same
      refine ⟨_, rfl, .mk _ _ _ _ ?_⟩
      rw [read]
      rfl
    | true =>
      refine Parses.node (p := ⟨.funcUnitDecl, 5⟩) (by decide)
        (Parses.sign (by decide) ((parses_name ident).cons (Parses.sign (by decide) (Parses.sign (by decide) (Parses.sign (by decide) last))))) ?_
      intro tokens hold
      obtain _ | ⟨⟨_⟩, _ | ⟨⟨_, _, _, read⟩, _ | ⟨⟨_⟩, _ | ⟨⟨_⟩, _ | ⟨⟨_⟩, _ |
        ⟨@⟨_, _, _, _, type, same⟩, _ | _⟩⟩⟩⟩⟩⟩ := hold
      obtain rfl : type = returnType := same
      refine ⟨_, rfl, .mk _ _ _ _ ?_⟩
      rw [read]
      rfl
  · have list : Parses source ruleIds [SUB .parameterList] (commas (params.map writeParam)) [HoldsAll .param params] :=
      parameter_list.parses_map none fun param member => parses_parameter (each param member)
    obtain ⟨param, rest, rfl⟩ := List.exists_cons_of_ne_nil none
    cases variadic with
    | false =>
      refine Parses.node (p := ⟨.funcUnitDecl, 6⟩) (by decide)
        (Parses.sign (by decide) ((parses_name ident).cons (Parses.sign (by decide) (list.cons (Parses.sign (by decide) last))))) ?_
      intro tokens hold
      obtain _ | ⟨⟨_⟩, _ | ⟨⟨_, _, _, read⟩, _ | ⟨⟨_⟩, _ | ⟨@⟨_, _, _, _, ps, items⟩, _ | ⟨⟨_⟩, _ |
        ⟨@⟨_, _, _, _, type, same⟩, _ | _⟩⟩⟩⟩⟩⟩ := hold
      obtain rfl : type = returnType := same
      obtain rfl := map_erase (fun _ => rfl) items
      refine ⟨_, rfl, .mk _ _ _ _ ?_⟩
      rw [read]
      rfl
    | true =>
      have all : Parses source ruleIds [SUB .funcUnitDecl]
          (sign .FUNC :: name n :: sign .LPAREN :: (commas ((param :: rest).map writeParam) ++
            sign .COMMA :: sign .ELLIPSIS :: sign .RPAREN :: writeType returnType))
          [Holds .unit (funcDeclared ⟨returnType, n, body, param :: rest, true⟩)] := by
        refine Parses.node (p := ⟨.funcUnitDecl, 7⟩) (by decide)
          (Parses.sign (by decide) ((parses_name ident).cons
            (Parses.sign (by decide) (list.cons (Parses.sign (by decide) (Parses.sign (by decide) (Parses.sign (by decide) last))))))) ?_
        intro tokens hold
        obtain _ | ⟨⟨_⟩, _ | ⟨⟨_, _, _, read⟩, _ | ⟨⟨_⟩, _ | ⟨@⟨_, _, _, _, ps, items⟩, _ | ⟨⟨_⟩, _ | ⟨⟨_⟩, _ | ⟨⟨_⟩, _ |
          ⟨@⟨_, _, _, _, type, same⟩, _ | _⟩⟩⟩⟩⟩⟩⟩⟩ := hold
        obtain rfl : type = returnType := same
        obtain rfl := map_erase (fun _ => rfl) items
        refine ⟨_, rfl, .mk _ _ _ _ ?_⟩
        rw [read]
        rfl
      simpa [List.append_assoc] using all

theorem funcDeclared_of_unlocated {unit : AstUnit} {func : FuncUnit}
    (same : unit.unlocated = (funcDeclared func).unlocated) :
    ∃ loc, unit = ⟨loc, .funcUnit { func with body := none }⟩ := by
  obtain ⟨loc, kind⟩ := unit
  cases kind with
  | funcUnit func' =>
    obtain ⟨returnType', n', body', params', variadic'⟩ := func'
    simp only [funcDeclared, AstUnit.unlocated, UnitKind.unlocated, AstUnit.mk.injEq, UnitKind.funcUnit.injEq,
      FuncUnit.mk.injEq, true_and, Option.map_none, Option.map_eq_none_iff] at same
    obtain ⟨rfl, rfl, rfl, rfl, rfl⟩ := same
    exact ⟨loc, rfl⟩
  | _ => simp [funcDeclared, AstUnit.unlocated, UnitKind.unlocated] at same

theorem parses_funcUnit {loc : Loc} {func : FuncUnit} (writable : func.Writable) :
    Parses source ruleIds [SUB .funcUnit] (writeFunc func) [Holds .unit ⟨loc, .funcUnit func⟩] := by
  have header : Parses source ruleIds [SUB .funcUnitDecl] (writeHeader func) [Holds .unit (funcDeclared func)] :=
    parses_header writable
  have split : writeFunc func = writeHeader func ++ writeBody func.body := by
    simp [writeFunc, writeHeader, List.append_assoc]
  obtain ⟨_, _, _, bodied⟩ := writable
  rw [split]
  obtain ⟨returnType, n, body, params, variadic⟩ := func
  cases body with
  | none =>
    refine Parses.node (p := ⟨.funcUnit, 0⟩) (by decide) (header.cons parses_semicolon) ?_
    intro tokens hold
    obtain _ | ⟨⟨_, _, _, _, same⟩, _ | ⟨⟨_⟩, _ | _⟩⟩ := hold
    obtain ⟨loc', rfl⟩ := funcDeclared_of_unlocated same
    exact ⟨_, rfl, .mk _ _ _ _ rfl⟩
  | some s =>
    obtain ⟨compound, stmt⟩ := bodied s rfl
    have block : Parses source ruleIds [SUB .compoundStmt] (writeBlock (some s)) [HoldsMaybe .stmt (some s)] := by
      refine parses_block (fun _ is => ?_) (fun _ is => ?_)
      · cases is
        exact compound
      · cases is
        exact parses_stmt stmt
    refine Parses.node (p := ⟨.funcUnit, 1⟩) (by decide) (header.cons block) ?_
    intro tokens hold
    obtain _ | ⟨⟨_, _, _, _, same⟩, _ | ⟨⟨⟩ | ⟨_, _, _, _, same'⟩, _ | _⟩⟩ := hold
    obtain ⟨loc', rfl⟩ := funcDeclared_of_unlocated same
    simp only [Kind.erase] at same'
    exact ⟨_, rfl, .mk _ _ _ _
      (by simp only [Kind.erase, AstUnit.unlocated, UnitKind.unlocated, Option.map_some, same'])⟩

theorem parses_unit {unit : AstUnit} (writable : unit.Writable) :
    Parses source ruleIds [SUB .unit] (writeUnit unit) [Holds .unit unit] := by
  obtain ⟨loc, kind⟩ := unit
  cases kind with
  | importUnit n =>
    obtain ⟨zero, quote, escape⟩ := writable
    have own : Parses source ruleIds [SUB .importUnit] (writeUnit ⟨loc, .importUnit n⟩)
        [Holds .unit ⟨loc, .importUnit n⟩] := by
      refine Parses.node (p := ⟨.importUnit, 0⟩) (by decide)
        (Parses.sign (by decide) ((parses_quoted zero quote escape).cons parses_semicolon)) ?_
      intro tokens hold
      obtain _ | ⟨⟨_⟩, _ | ⟨⟨_, _, _, rfl⟩, _ | ⟨⟨_⟩, _ | _⟩⟩⟩ := hold
      exact ⟨_, rfl, .mk _ _ _ _ rfl⟩
    exact own.pass (p := ⟨.unit, 0⟩) (by decide) rfl
  | packageUnit n =>
    obtain ⟨zero, quote, escape⟩ := writable
    have own : Parses source ruleIds [SUB .packageUnit] (writeUnit ⟨loc, .packageUnit n⟩)
        [Holds .unit ⟨loc, .packageUnit n⟩] := by
      refine Parses.node (p := ⟨.packageUnit, 0⟩) (by decide)
        (Parses.sign (by decide) ((parses_quoted zero quote escape).cons parses_semicolon)) ?_
      intro tokens hold
      obtain _ | ⟨⟨_⟩, _ | ⟨⟨_, _, _, rfl⟩, _ | ⟨⟨_⟩, _ | _⟩⟩⟩ := hold
      exact ⟨_, rfl, .mk _ _ _ _ rfl⟩
    exact own.pass (p := ⟨.unit, 1⟩) (by decide) rfl
  | declUnit decl =>
    have own : Parses source ruleIds [SUB .declUnit] (writeUnit ⟨loc, .declUnit decl⟩)
        [Holds .unit ⟨loc, .declUnit decl⟩] := by
      refine Parses.node (p := ⟨.declUnit, 0⟩) (by decide) (parses_decl writable) ?_
      intro tokens hold
      obtain _ | ⟨⟨_, _, _, _, same⟩, _ | _⟩ := hold
      simp only [Kind.erase] at same
      exact ⟨_, rfl, .mk _ _ _ _ (by simp only [Kind.erase, AstUnit.unlocated, UnitKind.unlocated, same])⟩
    exact own.pass (p := ⟨.unit, 2⟩) (by decide) rfl
  | funcUnit func => exact (parses_funcUnit writable).pass (p := ⟨.unit, 3⟩) (by decide) rfl
  | typeUnit n type =>
    have own : Parses source ruleIds [SUB .typeUnit] (writeUnit ⟨loc, .typeUnit n type⟩)
        [Holds .unit ⟨loc, .typeUnit n type⟩] := by
      refine Parses.node (p := ⟨.typeUnit, 0⟩) (by decide) (Parses.sign (by decide) ((parses_name writable.1).cons
        (Parses.sign (by decide) ((parses_type writable.2).cons parses_semicolon)))) ?_
      intro tokens hold
      obtain _ | ⟨⟨_⟩, _ | ⟨⟨_, _, _, rfl⟩, _ | ⟨⟨_⟩, _ | ⟨@⟨_, _, _, _, type', same⟩, _ | ⟨⟨_⟩, _ | _⟩⟩⟩⟩⟩ := hold
      obtain rfl : type' = type := same
      exact ⟨_, rfl, .mk _ _ _ _ rfl⟩
    exact own.pass (p := ⟨.unit, 4⟩) (by decide) rfl

theorem unit_list : IsListRule .unitList .unit none .unit .unitList :=
  ⟨rfl, rfl, by decide, nofun, fun _ _ _ => .inr rfl⟩

/-- A written program is read as itself. -/
theorem parses_program {units : List AstUnit} (writable : ∀ unit ∈ units, unit.Writable) :
    Parses source ruleIds [SUB .unitList] (writeProgram units) [HoldsAll .unit units] := by
  unfold writeProgram
  split
  · have null : Parses source ruleIds [SUB .unit] [sign .SEMICOLON] [HoldsMaybe .unit none] := by
      refine Parses.node (p := ⟨.unit, 5⟩) (by decide) parses_semicolon ?_
      intro tokens hold
      obtain _ | ⟨⟨_⟩, _ | _⟩ := hold
      exact ⟨_, rfl, .none _ _ _ _⟩
    refine Parses.node (p := ⟨.unitList, 0⟩) (by decide) null ?_
    intro tokens hold
    obtain _ | ⟨⟨_, _, _, _⟩ | ⟨⟩, _ | _⟩ := hold
    exact ⟨_, rfl, .mk _ _ _ _ rfl⟩
  · exact unit_list.parses_map (by assumption) fun unit member => parses_unit (writable unit member)

end Parses

/-- The text of a program, whatever stands behind it in memory: the lexer returns the lexemes of a
derivation of a unit list, and the reducers make the units of it. -/
theorem program_reads_back {units : List AstUnit} {more : List UInt8} (writable : ∀ unit ∈ units, unit.Writable)
    (notIdent : NotIdent more) (small : (text (writeProgram units)).length < 2 ^ 32) (ruleIds : Rule → Nat) :
    ∃ lexemes, Lexes (text (writeProgram units)) more lexemes ∧
      ∃ d : Lr.Derivation lowGrammar.lr Lexeme.token [SUB .unitList], d.forest.leaves = lexemes ∧
        ∃ token units', reduce (text (writeProgram units) ++ more) ruleIds d.forest = .ok [token] ∧
          token.value = .array .unit units' ∧ units'.map AstUnit.unlocated = units.map AstUnit.unlocated := by
  have phrase : Parses (text (writeProgram units) ++ more) ruleIds [SUB .unitList] (writeProgram units)
      [HoldsAll .unit units] := parses_program writable
  obtain ⟨lexemes, lexes, spells⟩ := lexes_text notIdent phrase.lexical small
  obtain ⟨f, valid, roots, leaves, _, reduced, hold⟩ := phrase.derives lexemes spells
  obtain _ | ⟨⟨_, _, _, _, same⟩, _ | _⟩ := hold
  exact ⟨lexemes, lexes, ⟨f, valid, roots⟩, leaves, _, _, reduced, rfl, same⟩

def int32 : AstType := .mk 0 (.integerType 32)

def sampleOne : Expr := .mk ⟨0, 0⟩ .zero (.numberLiteralExpr ['1'.toUInt8] 10)

def sampleAccess : Expr := .mk ⟨0, 0⟩ .zero (.indexAccessExpr (identExprAt 0 'p') sampleOne)

def sampleSum : Expr := .mk ⟨0, 0⟩ .zero (.binaryExpr (identExprAt 0 'n') sampleAccess .ADD)

def sampleReturn : Stmt := .mk ⟨0, 0⟩ (.returnStmt (some sampleSum))

def sampleBody : Stmt := .mk ⟨0, 0⟩ (.compoundStmt [.stmtItem (some sampleReturn)])

/-- `func f(n int32, p *[3]int32) int32 { return n + p[1]; }` -/
def sampleFunc : FuncUnit :=
  ⟨int32, ['f'.toUInt8], some sampleBody,
    [⟨int32, some ['n'.toUInt8]⟩, ⟨.mk 1 (.arrayType int32 3), some ['p'.toUInt8]⟩], false⟩

def sampleProgram : List AstUnit := [⟨⟨0, 0⟩, .packageUnit ['q'.toUInt8]⟩, ⟨⟨0, 0⟩, .funcUnit sampleFunc⟩]

theorem int32_writable : int32.Writable := .mk (by show 32 < 2 ^ 31; decide) nofun nofun

theorem sampleBody_writable : sampleBody.Writable := by
  have ident (c : Char) (is : IsIdent [c.toUInt8]) : (identExprAt 0 c).Writable := .mk is nofun
  have one : sampleOne.Writable :=
    .mk ⟨by decide, by decide, by decide, by decide, List.forall_mem_singleton.mpr (by decide),
      fun _ => ⟨by decide, _, rfl, by decide⟩⟩ nofun
  have access : sampleAccess.Writable :=
    .mk trivial (List.forall_mem_cons.mpr ⟨ident 'p' ⟨by decide, by decide⟩, List.forall_mem_singleton.mpr one⟩)
  have sum : sampleSum.Writable :=
    .mk trivial (List.forall_mem_cons.mpr ⟨ident 'n' ⟨by decide, by decide⟩, List.forall_mem_singleton.mpr access⟩)
  have last : sampleReturn.Writable := .mk trivial (List.forall_mem_singleton.mpr sum) nofun
  exact .mk ⟨by simp, List.forall_mem_singleton.mpr nofun⟩ nofun (List.forall_mem_singleton.mpr last)

theorem sampleFunc_writable : sampleFunc.Writable := by
  have array : AstType.Writable (.mk 1 (.arrayType int32 3)) :=
    .mk (by show 3 < 2 ^ 31; decide) (List.forall_mem_singleton.mpr int32_writable) nofun
  refine ⟨⟨by decide, by decide⟩, int32_writable, List.forall_mem_cons.mpr ⟨⟨int32_writable, ?_⟩,
    List.forall_mem_singleton.mpr ⟨array, ?_⟩⟩, ?_⟩
  · rintro _ ⟨⟩
    exact ⟨by decide, by decide⟩
  · rintro _ ⟨⟩
    exact ⟨by decide, by decide⟩
  · rintro _ ⟨⟩
    exact ⟨rfl, sampleBody_writable⟩

theorem sampleProgram_reads_back :
    ∃ lexemes, Lexes (text (writeProgram sampleProgram)) [0] lexemes ∧
      ∃ d : Lr.Derivation lowGrammar.lr Lexeme.token [SUB .unitList], d.forest.leaves = lexemes ∧
        ∃ token units', reduce (text (writeProgram sampleProgram) ++ [0]) (fun _ => 92) d.forest = .ok [token] ∧
          token.value = .array .unit units' ∧
          units'.map AstUnit.unlocated = sampleProgram.map AstUnit.unlocated := by
  have writable : ∀ unit ∈ sampleProgram, unit.Writable := List.forall_mem_cons.mpr
    ⟨⟨by decide, by decide, by decide⟩, List.forall_mem_singleton.mpr sampleFunc_writable⟩
  exact program_reads_back writable ⟨0, rfl, rfl⟩ (by decide) (fun _ => 92)

end Low
