import LowCompiler.Lr.Grammar
import LowCompiler.Lr.Items
import LowCompiler.Lr.Machine
import LowCompiler.Lr.Termination
import LowCompiler.Lr.Viable
import LowCompiler.Lr.Tree
import LowCompiler.Lr.Readings
import LowCompiler.Lexer.Token
import LowCompiler.Grammar.Rules
import LowCompiler.Grammar.LowRules
import LowCompiler.Grammar.Expressions
import LowCompiler.Generator.TokenSet
import LowCompiler.Lr.First
import LowCompiler.Worklist
import LowCompiler.Memory
import LowCompiler.Blocks
import LowCompiler.Stateful
import LowCompiler.Growing
import LowCompiler.Containers.Array
import LowCompiler.Containers.Refinement
import LowCompiler.Containers.Allocation
import LowCompiler.Containers.Vector
import LowCompiler.DepthFirst
import LowCompiler.Generator.First
import LowCompiler.Generator.Closure
import LowCompiler.Generator.Collection
import LowCompiler.Generator.EmptyRules
import LowCompiler.Generator.Actions
import LowCompiler.Generator.Conflicts
import LowCompiler.Parser.Correctness
import LowCompiler.Ast.Syntax
import LowCompiler.Ast.Print
import LowCompiler.Ast.TypeEqual
import LowCompiler.Ast.TypeCopy
import LowCompiler.Cfg.Machine
import LowCompiler.Cfg.Builder
import LowCompiler.Cfg.Run
import LowCompiler.Llvm.Typing
import LowCompiler.Llvm.Execution
import LowCompiler.Llvm.Semantics
import LowCompiler.Codegen.Context
import LowCompiler.Codegen.TypeTermination
import LowCompiler.Codegen.TypeAgreement
import LowCompiler.Codegen.Stmt
import LowCompiler.Codegen.Terminators
import LowCompiler.Codegen.Structured
import LowCompiler.Codegen.Expr
import LowCompiler.Codegen.Growth
import LowCompiler.Codegen.Graph
import LowCompiler.Codegen.Shapes
import LowCompiler.Codegen.Openings
import LowCompiler.Codegen.Selection
import LowCompiler.Codegen.Straight
import LowCompiler.Codegen.ZeroLoop
import LowCompiler.Codegen.Slicing
import LowCompiler.Codegen.ArraySlices
import LowCompiler.Codegen.Provenance
import LowCompiler.Codegen.SliceRuns
import LowCompiler.Codegen.Jobs
import LowCompiler.Codegen.Pieces
import LowCompiler.Codegen.BoolCasts
import LowCompiler.Codegen.Mangling
import LowCompiler.Codegen.CompoundAssignments
import LowCompiler.Codegen.Scopes
import LowCompiler.Codegen.Annotation
import LowCompiler.Codegen.StatementTypes
import LowCompiler.Codegen.Resolution
import LowCompiler.Codegen.InterfaceTables
import LowCompiler.Codegen.InterfaceSlots
import LowCompiler.Codegen.InterfaceFields
import LowCompiler.Codegen.InterfaceCalls
import LowCompiler.Codegen.Preserved
import LowCompiler.Codegen.Hints
import LowCompiler.Codegen.Completion
import LowCompiler.Codegen.Slices
import LowCompiler.Containers.Strings
import LowCompiler.Codegen.Names
import LowCompiler.Codegen.Imports
import LowCompiler.Reduce.Values
import LowCompiler.Reduce.Decimal
import LowCompiler.Reduce.Reducers
import LowCompiler.Reduce.TypeNames
import LowCompiler.Reduce.Numbers
import LowCompiler.Reduce.StringLiterals
import LowCompiler.Reduce.Trees
import LowCompiler.Reduce.Lossless
import LowCompiler.Codegen.Definitions
import LowCompiler.Reduce.Reparse
import LowCompiler.Parser.Errors
import LowCompiler.Parser.Safety
import LowCompiler.Parser.Termination
import LowCompiler.Lexer.Bounds
import LowCompiler.Lexer.Progress
import LowCompiler.Lexer.Semicolons
import LowCompiler.Lexer.Literals
import LowCompiler.Lexer.Locations
import LowCompiler.Lexer.Coverage
import LowCompiler.Lexer.Stream
import LowCompiler.Lexer.Transparency
import LowCompiler.Main.Options
import LowCompiler.Main.Modules
import LowCompiler.Writer.Words
import LowCompiler.Writer.Phrases
import LowCompiler.Writer.Types
import LowCompiler.Writer.Exprs
import LowCompiler.Writer.Declarations
import LowCompiler.Writer.Statements
import LowCompiler.Writer.Programs
import LowCompiler.Meaning.Values
import LowCompiler.Meaning.Operators
import LowCompiler.Meaning.Expressions
import LowCompiler.Meaning.Simulation
import LowCompiler.Meaning.Branches
import LowCompiler.Meaning.Parts
import LowCompiler.Meaning.Operations
import LowCompiler.Meaning.Correctness
