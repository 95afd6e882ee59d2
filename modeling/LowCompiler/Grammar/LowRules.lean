import LowCompiler.Grammar.Rules

/-!
# The grammar of Low

The table `GRAMMAR` of `grammar_rules.h` with the root rule of `grammar.c`. A
variant names its reducer by an enumerator, which `Reducer.symbol` turns into the
name that the table holds.
-/

namespace Low

/-- The rules, `root` being `grammar_root`. -/
inductive Rule where
  | primaryExpr | postfixExpr | argumentExprList | unaryExpr | builtinFunc | unaryOp | castExpr
  | multiplicativeExpr | additiveExpr | shiftExpr | relationalExpr | equalityExpr | bitwiseAndExpr
  | bitwiseXorExpr | bitwiseOrExpr | andExpr | orExpr | conditionalExpr | assignmentExpr | assignmentOp
  | expr | exprStmt | compoundStmt | blockItemList | blockItem | selectionStmt | iterationStmt
  | iterationStmtForInit | iterationStmtForCond | iterationStmtForStep | iterationStmtForWhile | jumpStmt
  | labeledStmt | stmt | variableDecl | constDecl | implementationDecl | implementationMappingList
  | implementationMapping | decl | type | structMemberList | structMember | funcTypeArgs
  | interfaceMemberList | interfaceMember | interfaceMemberFuncParameterList | interfaceMemberFuncParameter
  | importUnit | packageUnit | declUnit | funcUnit | funcUnitDecl | parameterList | parameter | typeUnit
  | unitList | unit | root
  deriving DecidableEq, Repr

/-- The functions of `grammar_rules.c` that the grammar names. -/
inductive Reducer where
  | primaryExprIdent | primaryExprString | primaryExprNumber | primaryExprParen | postfixExprIndex
  | postfixExprSlice | postfixExprCall | postfixExprMember | postfixExprIncdec | argumentExprList
  | unaryExprIncdec | unaryExprOp | unaryExprSizeof | builtinFuncNew | builtinFuncFree | builtinFuncMake
  | builtinFuncLencap | builtinFuncDispose | unaryOp | castExpr | castExpr2 | binaryExpr | conditionalExpr
  | assignmentExpr | assignmentOp | exprComma | exprStmt | compoundStmt | blockItemList | blockItemDecl
  | blockItemStmt | selectionStmtIf | selectionStmtSwitch | iterationStmtDo | iterationStmtFor
  | iterationStmtForInit | iterationStmtForCond | iterationStmtForStep | iterationStmtForWhile
  | jumpStmtGoto | jumpStmtContinue | jumpStmtBreak | jumpStmtReturn | labeledStmtCase | labeledStmtDefault
  | variableDecl | variableDecl2 | constDecl | implementationDecl | implementationMappingList
  | implementationMapping | typeVoid | typeName | typePointer | typeStruct | typeArray | typeSlice
  | typeFunc | typeInterface | structMemberList | structMember | structMember2 | funcTypeArgs
  | interfaceMemberList | interfaceMemberField | interfaceMemberFunc | interfaceMemberFuncParameterList
  | interfaceMemberFuncParameter | importUnit | packageUnit | declUnit | funcUnit | funcUnitDecl
  | funcUnitDecl2 | parameterList | parameter | typeUnit | unitList
  deriving DecidableEq, Repr

def Reducer.symbol : Reducer → String
  | .primaryExprIdent => "reduce_primary_expr_ident"
  | .primaryExprString => "reduce_primary_expr_string"
  | .primaryExprNumber => "reduce_primary_expr_number"
  | .primaryExprParen => "reduce_primary_expr_paren"
  | .postfixExprIndex => "reduce_postfix_expr_index"
  | .postfixExprSlice => "reduce_postfix_expr_slice"
  | .postfixExprCall => "reduce_postfix_expr_call"
  | .postfixExprMember => "reduce_postfix_expr_member"
  | .postfixExprIncdec => "reduce_postfix_expr_incdec"
  | .argumentExprList => "reduce_argument_expr_list"
  | .unaryExprIncdec => "reduce_unary_expr_incdec"
  | .unaryExprOp => "reduce_unary_expr_op"
  | .unaryExprSizeof => "reduce_unary_expr_sizeof"
  | .builtinFuncNew => "reduce_builtin_func_new"
  | .builtinFuncFree => "reduce_builtin_func_free"
  | .builtinFuncMake => "reduce_builtin_func_make"
  | .builtinFuncLencap => "reduce_builtin_func_lencap"
  | .builtinFuncDispose => "reduce_builtin_func_dispose"
  | .unaryOp => "reduce_unary_op"
  | .castExpr => "reduce_cast_expr"
  | .castExpr2 => "reduce_cast_expr2"
  | .binaryExpr => "reduce_binary_expr"
  | .conditionalExpr => "reduce_conditional_expr"
  | .assignmentExpr => "reduce_assignment_expr"
  | .assignmentOp => "reduce_assignment_op"
  | .exprComma => "reduce_expr_comma"
  | .exprStmt => "reduce_expr_stmt"
  | .compoundStmt => "reduce_compound_stmt"
  | .blockItemList => "reduce_block_item_list"
  | .blockItemDecl => "reduce_block_item_decl"
  | .blockItemStmt => "reduce_block_item_stmt"
  | .selectionStmtIf => "reduce_selection_stmt_if"
  | .selectionStmtSwitch => "reduce_selection_stmt_switch"
  | .iterationStmtDo => "reduce_iteration_stmt_do"
  | .iterationStmtFor => "reduce_iteration_stmt_for"
  | .iterationStmtForInit => "reduce_iteration_stmt_for_init"
  | .iterationStmtForCond => "reduce_iteration_stmt_for_cond"
  | .iterationStmtForStep => "reduce_iteration_stmt_for_step"
  | .iterationStmtForWhile => "reduce_iteration_stmt_for_while"
  | .jumpStmtGoto => "reduce_jump_stmt_goto"
  | .jumpStmtContinue => "reduce_jump_stmt_continue"
  | .jumpStmtBreak => "reduce_jump_stmt_break"
  | .jumpStmtReturn => "reduce_jump_stmt_return"
  | .labeledStmtCase => "reduce_labeled_stmt_case"
  | .labeledStmtDefault => "reduce_labeled_stmt_default"
  | .variableDecl => "reduce_variable_decl"
  | .variableDecl2 => "reduce_variable_decl2"
  | .constDecl => "reduce_const_decl"
  | .implementationDecl => "reduce_implementation_decl"
  | .implementationMappingList => "reduce_implementation_mapping_list"
  | .implementationMapping => "reduce_implementation_mapping"
  | .typeVoid => "reduce_type_void"
  | .typeName => "reduce_type_name"
  | .typePointer => "reduce_type_pointer"
  | .typeStruct => "reduce_type_struct"
  | .typeArray => "reduce_type_array"
  | .typeSlice => "reduce_type_slice"
  | .typeFunc => "reduce_type_func"
  | .typeInterface => "reduce_type_interface"
  | .structMemberList => "reduce_struct_member_list"
  | .structMember => "reduce_struct_member"
  | .structMember2 => "reduce_struct_member2"
  | .funcTypeArgs => "reduce_func_type_args"
  | .interfaceMemberList => "reduce_interface_member_list"
  | .interfaceMemberField => "reduce_interface_member_field"
  | .interfaceMemberFunc => "reduce_interface_member_func"
  | .interfaceMemberFuncParameterList => "reduce_interface_member_func_parameter_list"
  | .interfaceMemberFuncParameter => "reduce_interface_member_func_parameter"
  | .importUnit => "reduce_import_unit"
  | .packageUnit => "reduce_package_unit"
  | .declUnit => "reduce_decl_unit"
  | .funcUnit => "reduce_func_unit"
  | .funcUnitDecl => "reduce_func_unit_decl"
  | .funcUnitDecl2 => "reduce_func_unit_decl2"
  | .parameterList => "reduce_parameter_list"
  | .parameter => "reduce_parameter"
  | .typeUnit => "reduce_type_unit"
  | .unitList => "reduce_unit_list"

structure RuleVariant where
  elements : List (Symbol Token Rule)
  reducer : Option Reducer
  tag : Int
  deriving DecidableEq, Repr

abbrev TKN (t : Token) : Symbol Token Rule := .terminal t

abbrev SUB (rule : Rule) : Symbol Token Rule := .nonterminal rule

def Rule.variants : Rule → List RuleVariant
  | .primaryExpr => [
      ⟨[TKN .IDENT], some .primaryExprIdent, 0⟩,
      ⟨[TKN .STRING_LITERAL], some .primaryExprString, 0⟩,
      ⟨[TKN .NUMBER_LITERAL], some .primaryExprNumber, 0⟩,
      ⟨[TKN .LPAREN, SUB .expr, TKN .RPAREN], some .primaryExprParen, 0⟩]
  | .postfixExpr => [
      ⟨[SUB .primaryExpr], none, 0⟩,
      ⟨[SUB .postfixExpr, TKN .LBRACK, SUB .expr, TKN .RBRACK], some .postfixExprIndex, 0⟩,
      ⟨[SUB .postfixExpr, TKN .LBRACK, SUB .expr, TKN .COLON, SUB .expr, TKN .RBRACK], some .postfixExprSlice, 0⟩,
      ⟨[SUB .postfixExpr, TKN .LBRACK, TKN .COLON, SUB .expr, TKN .RBRACK], some .postfixExprSlice, 1⟩,
      ⟨[SUB .postfixExpr, TKN .LBRACK, SUB .expr, TKN .COLON, TKN .RBRACK], some .postfixExprSlice, 2⟩,
      ⟨[SUB .postfixExpr, TKN .LBRACK, TKN .COLON, TKN .RBRACK], some .postfixExprSlice, 3⟩,
      ⟨[SUB .postfixExpr, TKN .LPAREN, TKN .RPAREN], some .postfixExprCall, 0⟩,
      ⟨[SUB .postfixExpr, TKN .LPAREN, SUB .argumentExprList, TKN .RPAREN], some .postfixExprCall, 1⟩,
      ⟨[SUB .postfixExpr, TKN .PERIOD, TKN .IDENT], some .postfixExprMember, 0⟩,
      ⟨[SUB .postfixExpr, TKN .INC_OP], some .postfixExprIncdec, 0⟩,
      ⟨[SUB .postfixExpr, TKN .DEC_OP], some .postfixExprIncdec, 1⟩]
  | .argumentExprList => [
      ⟨[SUB .assignmentExpr], some .argumentExprList, 0⟩,
      ⟨[SUB .argumentExprList, TKN .COMMA, SUB .assignmentExpr], some .argumentExprList, 1⟩]
  | .unaryExpr => [
      ⟨[SUB .postfixExpr], none, 0⟩,
      ⟨[TKN .INC_OP, SUB .unaryExpr], some .unaryExprIncdec, 0⟩,
      ⟨[TKN .DEC_OP, SUB .unaryExpr], some .unaryExprIncdec, 1⟩,
      ⟨[SUB .unaryOp, SUB .castExpr], some .unaryExprOp, 0⟩,
      ⟨[TKN .SIZEOF, SUB .unaryExpr], some .unaryExprSizeof, 0⟩,
      ⟨[TKN .SIZEOF, TKN .HASH, SUB .type], some .unaryExprSizeof, 1⟩,
      ⟨[SUB .builtinFunc], none, 0⟩]
  | .builtinFunc => [
      ⟨[TKN .NEW, TKN .LPAREN, SUB .type, TKN .RPAREN], some .builtinFuncNew, 0⟩,
      ⟨[TKN .NEW, TKN .LPAREN, SUB .type, TKN .COMMA, SUB .expr, TKN .RPAREN], some .builtinFuncNew, 1⟩,
      ⟨[TKN .FREE, TKN .LPAREN, SUB .expr, TKN .RPAREN], some .builtinFuncFree, 0⟩,
      ⟨[TKN .MAKE, TKN .LPAREN, SUB .type, TKN .COMMA, SUB .expr, TKN .RPAREN], some .builtinFuncMake, 0⟩,
      ⟨[TKN .LEN, TKN .LPAREN, SUB .expr, TKN .RPAREN], some .builtinFuncLencap, 0⟩,
      ⟨[TKN .CAP, TKN .LPAREN, SUB .expr, TKN .RPAREN], some .builtinFuncLencap, 1⟩,
      ⟨[TKN .DISPOSE, TKN .LPAREN, SUB .expr, TKN .RPAREN], some .builtinFuncDispose, 0⟩]
  | .unaryOp => [
      ⟨[TKN .BITWISE_AND], some .unaryOp, 0⟩,
      ⟨[TKN .MUL_OP], some .unaryOp, 0⟩,
      ⟨[TKN .ADD_OP], some .unaryOp, 0⟩,
      ⟨[TKN .SUB_OP], some .unaryOp, 0⟩,
      ⟨[TKN .BITWISE_NOT], some .unaryOp, 0⟩,
      ⟨[TKN .NOT_OP], some .unaryOp, 0⟩]
  | .castExpr => [
      ⟨[SUB .unaryExpr], none, 0⟩,
      ⟨[TKN .HASH, TKN .LPAREN, SUB .type, TKN .RPAREN, SUB .castExpr], some .castExpr, 0⟩,
      ⟨[TKN .HASH, SUB .type, TKN .LPAREN, SUB .expr, TKN .RPAREN], some .castExpr2, 0⟩]
  | .multiplicativeExpr => [
      ⟨[SUB .castExpr], none, 0⟩,
      ⟨[SUB .multiplicativeExpr, TKN .MUL_OP, SUB .castExpr], some .binaryExpr, 0⟩,
      ⟨[SUB .multiplicativeExpr, TKN .DIV_OP, SUB .castExpr], some .binaryExpr, 0⟩,
      ⟨[SUB .multiplicativeExpr, TKN .MOD_OP, SUB .castExpr], some .binaryExpr, 0⟩]
  | .additiveExpr => [
      ⟨[SUB .multiplicativeExpr], none, 0⟩,
      ⟨[SUB .additiveExpr, TKN .ADD_OP, SUB .multiplicativeExpr], some .binaryExpr, 1⟩,
      ⟨[SUB .additiveExpr, TKN .SUB_OP, SUB .multiplicativeExpr], some .binaryExpr, 1⟩]
  | .shiftExpr => [
      ⟨[SUB .additiveExpr], none, 0⟩,
      ⟨[SUB .shiftExpr, TKN .LEFT_OP, SUB .additiveExpr], some .binaryExpr, 2⟩,
      ⟨[SUB .shiftExpr, TKN .RIGHT_OP, SUB .additiveExpr], some .binaryExpr, 2⟩]
  | .relationalExpr => [
      ⟨[SUB .shiftExpr], none, 0⟩,
      ⟨[SUB .relationalExpr, TKN .LT_OP, SUB .shiftExpr], some .binaryExpr, 3⟩,
      ⟨[SUB .relationalExpr, TKN .GT_OP, SUB .shiftExpr], some .binaryExpr, 3⟩,
      ⟨[SUB .relationalExpr, TKN .LE_OP, SUB .shiftExpr], some .binaryExpr, 3⟩,
      ⟨[SUB .relationalExpr, TKN .GE_OP, SUB .shiftExpr], some .binaryExpr, 3⟩]
  | .equalityExpr => [
      ⟨[SUB .relationalExpr], none, 0⟩,
      ⟨[SUB .equalityExpr, TKN .EQ_OP, SUB .relationalExpr], some .binaryExpr, 4⟩,
      ⟨[SUB .equalityExpr, TKN .NE_OP, SUB .relationalExpr], some .binaryExpr, 4⟩]
  | .bitwiseAndExpr => [
      ⟨[SUB .equalityExpr], none, 0⟩,
      ⟨[SUB .bitwiseAndExpr, TKN .BITWISE_AND, SUB .equalityExpr], some .binaryExpr, 5⟩]
  | .bitwiseXorExpr => [
      ⟨[SUB .bitwiseAndExpr], none, 0⟩,
      ⟨[SUB .bitwiseXorExpr, TKN .BITWISE_XOR, SUB .bitwiseAndExpr], some .binaryExpr, 6⟩]
  | .bitwiseOrExpr => [
      ⟨[SUB .bitwiseXorExpr], none, 0⟩,
      ⟨[SUB .bitwiseOrExpr, TKN .BITWISE_OR, SUB .bitwiseXorExpr], some .binaryExpr, 7⟩]
  | .andExpr => [
      ⟨[SUB .bitwiseOrExpr], none, 0⟩,
      ⟨[SUB .andExpr, TKN .AND_OP, SUB .bitwiseOrExpr], some .binaryExpr, 8⟩]
  | .orExpr => [
      ⟨[SUB .andExpr], none, 0⟩,
      ⟨[SUB .orExpr, TKN .OR_OP, SUB .andExpr], some .binaryExpr, 9⟩]
  | .conditionalExpr => [
      ⟨[SUB .orExpr], none, 0⟩,
      ⟨[SUB .orExpr, TKN .QUESTION, SUB .expr, TKN .COLON, SUB .conditionalExpr], some .conditionalExpr, 0⟩]
  | .assignmentExpr => [
      ⟨[SUB .conditionalExpr], none, 0⟩,
      ⟨[SUB .unaryExpr, SUB .assignmentOp, SUB .assignmentExpr], some .assignmentExpr, 0⟩]
  | .assignmentOp => [
      ⟨[TKN .ASSIGN], some .assignmentOp, 0⟩,
      ⟨[TKN .ADD_ASSIGN], some .assignmentOp, 0⟩,
      ⟨[TKN .AND_ASSIGN], some .assignmentOp, 0⟩,
      ⟨[TKN .DIV_ASSIGN], some .assignmentOp, 0⟩,
      ⟨[TKN .LEFT_ASSIGN], some .assignmentOp, 0⟩,
      ⟨[TKN .MOD_ASSIGN], some .assignmentOp, 0⟩,
      ⟨[TKN .MUL_ASSIGN], some .assignmentOp, 0⟩,
      ⟨[TKN .OR_ASSIGN], some .assignmentOp, 0⟩,
      ⟨[TKN .RIGHT_ASSIGN], some .assignmentOp, 0⟩,
      ⟨[TKN .SUB_ASSIGN], some .assignmentOp, 0⟩,
      ⟨[TKN .XOR_ASSIGN], some .assignmentOp, 0⟩]
  | .expr => [
      ⟨[SUB .assignmentExpr], none, 0⟩,
      ⟨[SUB .expr, TKN .COMMA, SUB .assignmentExpr], some .exprComma, 0⟩]
  | .exprStmt => [
      ⟨[TKN .SEMICOLON], none, 0⟩,
      ⟨[SUB .expr, TKN .SEMICOLON], some .exprStmt, 0⟩]
  | .compoundStmt => [
      ⟨[TKN .LBRACE, TKN .RBRACE], none, 0⟩,
      ⟨[TKN .LBRACE, SUB .blockItemList, TKN .RBRACE], some .compoundStmt, 0⟩]
  | .blockItemList => [
      ⟨[SUB .blockItem], some .blockItemList, 0⟩,
      ⟨[SUB .blockItemList, SUB .blockItem], some .blockItemList, 1⟩]
  | .blockItem => [
      ⟨[SUB .decl], some .blockItemDecl, 0⟩,
      ⟨[SUB .stmt], some .blockItemStmt, 0⟩]
  | .selectionStmt => [
      ⟨[TKN .IF, SUB .expr, SUB .compoundStmt], some .selectionStmtIf, 0⟩,
      ⟨[TKN .IF, SUB .expr, SUB .compoundStmt, TKN .ELSE, SUB .stmt], some .selectionStmtIf, 1⟩,
      ⟨[TKN .SWITCH, TKN .LPAREN, SUB .expr, TKN .RPAREN, SUB .stmt], some .selectionStmtSwitch, 0⟩]
  | .iterationStmt => [
      ⟨[TKN .DO, SUB .stmt, TKN .WHILE, TKN .LPAREN, SUB .expr, TKN .RPAREN, TKN .SEMICOLON],
        some .iterationStmtDo, 0⟩,
      ⟨[SUB .iterationStmtForStep, SUB .compoundStmt], some .iterationStmtFor, 0⟩,
      ⟨[SUB .iterationStmtForWhile, SUB .compoundStmt], some .iterationStmtFor, 0⟩]
  | .iterationStmtForInit => [
      ⟨[TKN .FOR, TKN .SEMICOLON], some .iterationStmtForInit, 0⟩,
      ⟨[TKN .FOR, SUB .expr, TKN .SEMICOLON], some .iterationStmtForInit, 1⟩]
  | .iterationStmtForCond => [
      ⟨[SUB .iterationStmtForInit, TKN .SEMICOLON], some .iterationStmtForCond, 0⟩,
      ⟨[SUB .iterationStmtForInit, SUB .expr, TKN .SEMICOLON], some .iterationStmtForCond, 1⟩]
  | .iterationStmtForStep => [
      ⟨[SUB .iterationStmtForCond], some .iterationStmtForStep, 0⟩,
      ⟨[SUB .iterationStmtForCond, SUB .expr], some .iterationStmtForStep, 1⟩]
  | .iterationStmtForWhile => [
      ⟨[TKN .FOR], some .iterationStmtForWhile, 0⟩,
      ⟨[TKN .FOR, SUB .expr], some .iterationStmtForWhile, 1⟩]
  | .jumpStmt => [
      ⟨[TKN .GOTO, TKN .IDENT, TKN .SEMICOLON], some .jumpStmtGoto, 0⟩,
      ⟨[TKN .CONTINUE, TKN .SEMICOLON], some .jumpStmtContinue, 0⟩,
      ⟨[TKN .BREAK, TKN .SEMICOLON], some .jumpStmtBreak, 0⟩,
      ⟨[TKN .RETURN, TKN .SEMICOLON], some .jumpStmtReturn, 0⟩,
      ⟨[TKN .RETURN, SUB .expr, TKN .SEMICOLON], some .jumpStmtReturn, 1⟩]
  | .labeledStmt => [
      ⟨[TKN .CASE, SUB .expr, TKN .COLON, SUB .stmt], some .labeledStmtCase, 0⟩,
      ⟨[TKN .DEFAULT, TKN .COLON, SUB .stmt], some .labeledStmtDefault, 0⟩]
  | .stmt => [
      ⟨[SUB .exprStmt], none, 0⟩,
      ⟨[SUB .compoundStmt], none, 0⟩,
      ⟨[SUB .selectionStmt], none, 0⟩,
      ⟨[SUB .iterationStmt], none, 0⟩,
      ⟨[SUB .jumpStmt], none, 0⟩,
      ⟨[SUB .labeledStmt], none, 0⟩]
  | .variableDecl => [
      ⟨[TKN .VAR, SUB .type, TKN .IDENT, TKN .SEMICOLON], some .variableDecl, 0⟩,
      ⟨[TKN .VAR, SUB .type, TKN .IDENT, TKN .ASSIGN, SUB .assignmentExpr, TKN .SEMICOLON], some .variableDecl, 1⟩,
      ⟨[TKN .VAR, TKN .IDENT, TKN .ASSIGN, SUB .assignmentExpr, TKN .SEMICOLON], some .variableDecl, 2⟩,
      ⟨[TKN .IDENT, TKN .COLON, SUB .type, TKN .SEMICOLON], some .variableDecl2, 0⟩,
      ⟨[TKN .IDENT, TKN .COLON, SUB .type, TKN .ASSIGN, SUB .assignmentExpr, TKN .SEMICOLON], some .variableDecl2, 1⟩,
      ⟨[TKN .IDENT, TKN .DEF_ASSIGN, SUB .assignmentExpr, TKN .SEMICOLON], some .variableDecl2, 2⟩]
  | .constDecl => [
      ⟨[TKN .CONST, TKN .IDENT, TKN .ASSIGN, SUB .assignmentExpr, TKN .SEMICOLON], some .constDecl, 0⟩,
      ⟨[TKN .CONST, TKN .IDENT, SUB .type, TKN .ASSIGN, SUB .assignmentExpr, TKN .SEMICOLON], some .constDecl, 1⟩]
  | .implementationDecl => [
      ⟨[TKN .INTERFACE, SUB .type, TKN .LPAREN, SUB .type, TKN .RPAREN, TKN .LBRACE, SUB .implementationMappingList, TKN .RBRACE],
        some .implementationDecl, 0⟩]
  | .implementationMappingList => [
      ⟨[SUB .implementationMapping], some .implementationMappingList, 0⟩,
      ⟨[SUB .implementationMappingList, SUB .implementationMapping], some .implementationMappingList, 1⟩]
  | .implementationMapping => [
      ⟨[TKN .IDENT, TKN .ASSIGN, TKN .IDENT, TKN .SEMICOLON], some .implementationMapping, 0⟩]
  | .decl => [
      ⟨[SUB .variableDecl], none, 0⟩,
      ⟨[SUB .constDecl], none, 0⟩,
      ⟨[SUB .implementationDecl], none, 0⟩]
  | .type => [
      ⟨[TKN .VOID], some .typeVoid, 0⟩,
      ⟨[TKN .IDENT], some .typeName, 0⟩,
      ⟨[TKN .MUL_OP, SUB .type], some .typePointer, 0⟩,
      ⟨[TKN .STRUCT, TKN .LBRACE, SUB .structMemberList, TKN .RBRACE], some .typeStruct, 0⟩,
      ⟨[TKN .LBRACK, TKN .NUMBER_LITERAL, TKN .RBRACK, SUB .type], some .typeArray, 0⟩,
      ⟨[TKN .LBRACK, TKN .RBRACK, SUB .type], some .typeSlice, 0⟩,
      ⟨[TKN .FUNC, TKN .LPAREN, TKN .RPAREN, SUB .type], some .typeFunc, 0⟩,
      ⟨[TKN .FUNC, TKN .LPAREN, SUB .funcTypeArgs, TKN .RPAREN, SUB .type], some .typeFunc, 1⟩,
      ⟨[TKN .INTERFACE, TKN .LBRACE, TKN .RBRACE], some .typeInterface, 0⟩,
      ⟨[TKN .INTERFACE, TKN .LBRACE, SUB .interfaceMemberList, TKN .RBRACE], some .typeInterface, 1⟩]
  | .structMemberList => [
      ⟨[SUB .structMember], some .structMemberList, 0⟩,
      ⟨[SUB .structMemberList, SUB .structMember], some .structMemberList, 1⟩]
  | .structMember => [
      ⟨[SUB .type, TKN .IDENT, TKN .SEMICOLON], some .structMember, 0⟩,
      ⟨[TKN .IDENT, TKN .COLON, SUB .type, TKN .SEMICOLON], some .structMember2, 0⟩]
  | .funcTypeArgs => [
      ⟨[SUB .type], some .funcTypeArgs, 0⟩,
      ⟨[SUB .funcTypeArgs, TKN .COMMA, SUB .type], some .funcTypeArgs, 1⟩]
  | .interfaceMemberList => [
      ⟨[SUB .interfaceMember], some .interfaceMemberList, 0⟩,
      ⟨[SUB .interfaceMemberList, SUB .interfaceMember], some .interfaceMemberList, 1⟩]
  | .interfaceMember => [
      ⟨[TKN .IDENT, TKN .COLON, SUB .type, TKN .SEMICOLON], some .interfaceMemberField, 0⟩,
      ⟨[TKN .FUNC, TKN .IDENT, TKN .LPAREN, SUB .interfaceMemberFuncParameterList, TKN .RPAREN, SUB .type, TKN .SEMICOLON],
        some .interfaceMemberFunc, 0⟩]
  | .interfaceMemberFuncParameterList => [
      ⟨[SUB .interfaceMemberFuncParameter], some .interfaceMemberFuncParameterList, 0⟩,
      ⟨[SUB .interfaceMemberFuncParameterList, TKN .COMMA, SUB .interfaceMemberFuncParameter],
        some .interfaceMemberFuncParameterList, 1⟩]
  | .interfaceMemberFuncParameter => [
      ⟨[TKN .HASH], some .interfaceMemberFuncParameter, 0⟩,
      ⟨[SUB .type], none, 0⟩]
  | .importUnit => [
      ⟨[TKN .IMPORT, TKN .STRING_LITERAL, TKN .SEMICOLON], some .importUnit, 0⟩]
  | .packageUnit => [
      ⟨[TKN .PACKAGE, TKN .STRING_LITERAL, TKN .SEMICOLON], some .packageUnit, 0⟩]
  | .declUnit => [
      ⟨[SUB .decl], some .declUnit, 0⟩]
  | .funcUnit => [
      ⟨[SUB .funcUnitDecl, TKN .SEMICOLON], some .funcUnit, 0⟩,
      ⟨[SUB .funcUnitDecl, SUB .compoundStmt], some .funcUnit, 1⟩]
  | .funcUnitDecl => [
      ⟨[SUB .type, TKN .IDENT, TKN .LPAREN, TKN .RPAREN], some .funcUnitDecl, 0⟩,
      ⟨[SUB .type, TKN .IDENT, TKN .LPAREN, TKN .ELLIPSIS, TKN .RPAREN], some .funcUnitDecl, 1⟩,
      ⟨[SUB .type, TKN .IDENT, TKN .LPAREN, SUB .parameterList, TKN .RPAREN], some .funcUnitDecl, 2⟩,
      ⟨[SUB .type, TKN .IDENT, TKN .LPAREN, SUB .parameterList, TKN .COMMA, TKN .ELLIPSIS, TKN .RPAREN],
        some .funcUnitDecl, 3⟩,
      ⟨[TKN .FUNC, TKN .IDENT, TKN .LPAREN, TKN .RPAREN, SUB .type], some .funcUnitDecl2, 0⟩,
      ⟨[TKN .FUNC, TKN .IDENT, TKN .LPAREN, TKN .ELLIPSIS, TKN .RPAREN, SUB .type], some .funcUnitDecl2, 1⟩,
      ⟨[TKN .FUNC, TKN .IDENT, TKN .LPAREN, SUB .parameterList, TKN .RPAREN, SUB .type], some .funcUnitDecl2, 2⟩,
      ⟨[TKN .FUNC, TKN .IDENT, TKN .LPAREN, SUB .parameterList, TKN .COMMA, TKN .ELLIPSIS, TKN .RPAREN, SUB .type],
        some .funcUnitDecl2, 3⟩]
  | .parameterList => [
      ⟨[SUB .parameter], some .parameterList, 0⟩,
      ⟨[SUB .parameterList, TKN .COMMA, SUB .parameter], some .parameterList, 1⟩]
  | .parameter => [
      ⟨[SUB .type], some .parameter, 0⟩,
      ⟨[TKN .IDENT, SUB .type], some .parameter, 1⟩]
  | .typeUnit => [
      ⟨[TKN .TYPE, TKN .IDENT, TKN .COLON, SUB .type, TKN .SEMICOLON], some .typeUnit, 0⟩]
  | .unitList => [
      ⟨[SUB .unit], some .unitList, 0⟩,
      ⟨[SUB .unitList, SUB .unit], some .unitList, 1⟩]
  | .unit => [
      ⟨[SUB .importUnit], none, 0⟩,
      ⟨[SUB .packageUnit], none, 0⟩,
      ⟨[SUB .declUnit], none, 0⟩,
      ⟨[SUB .funcUnit], none, 0⟩,
      ⟨[SUB .typeUnit], none, 0⟩,
      ⟨[TKN .SEMICOLON], none, 0⟩]  | .root => [⟨[SUB .unitList], none, 0⟩]

/-- `GRAMMAR` as the generator reads it. -/
def lowGrammar : Grammar Rule where
  variants
    | .root => [⟨[SUB .unitList], some "0 /* accept */", 0⟩]
    | rule => rule.variants.map fun v => ⟨v.elements, v.reducer.map Reducer.symbol, v.tag⟩
  root := .root
  grammarRoot := .unitList
  root_variants := rfl
  nonzero rule := by cases rule <;> decide

theorem lowGrammar_elements (rule : Rule) :
    lowGrammar.lr.variants rule = rule.variants.map RuleVariant.elements := by
  cases rule <;> rfl

/-- The variant of a production, an empty one for an index that the rule does not have. -/
def ruleVariant (p : Lr.Production Rule) : RuleVariant :=
  (p.rule.variants[p.variant]?).getD ⟨[], none, 0⟩

theorem elements_ruleVariant (p : Lr.Production Rule) :
    lowGrammar.lr.elements p = (ruleVariant p).elements := by
  unfold Lr.Grammar.elements ruleVariant
  rw [lowGrammar_elements, List.getElem?_map]
  cases p.rule.variants[p.variant]? <;> rfl

theorem ruleVariant_mem {p : Lr.Production Rule} (has : lowGrammar.lr.Has p) :
    ruleVariant p ∈ p.rule.variants := by
  have bound : p.variant < p.rule.variants.length := by
    simpa [Lr.Grammar.Has, lowGrammar_elements] using has
  unfold ruleVariant
  rw [List.getElem?_eq_getElem bound]
  exact List.getElem_mem bound

end Low
