import LowCompiler.Ast.TypeEqual

/-!
# Copies of types

`type_copy` of `ast.c`. A copy is built in freshly allocated memory, and for the
members of an interface type it writes all but two fields: the kind of the member
and the number of its arguments. What the readers of a type find there is what the
memory held before.
-/

namespace Low

/-! ### Types in memory -/

/-- `interface_member_t`. The name and the type lie at the same place in both kinds of member. -/
structure RawMember (T : Type) where
  kind : Nat
  numArgs : Nat
  name : Name
  type : T
  args : List T

/-- `type_t` in memory. -/
inductive RawType where
  | mk (pointer : Nat) (kind : TypeKind RawType)
  | interface (pointer : Nat) (members : List (RawMember RawType))

def AST_MEMBER_FIELD : Nat := 0

def AST_MEMBER_FUNCTION : Nat := 1

/-- What an `interface_member_t` holds before it is written. -/
structure FreshMember where
  kind : Nat
  numArgs : Nat

/-- The memory handed out by `malloc` while a type is copied, by the place in the type. -/
abbrev FreshMemory := List Bool → FreshMember

namespace FreshMemory

def first (memory : FreshMemory) : FreshMemory := fun place => memory (false :: place)

def rest (memory : FreshMemory) : FreshMemory := fun place => memory (true :: place)

end FreshMemory

mutual

def typeCopy (memory : FreshMemory) : AstType → RawType
  | .mk pointer kind => kindCopy memory pointer kind
termination_by structural src => src

/-- `*dst = *src`, and the `switch` over the kind. -/
def kindCopy (memory : FreshMemory) (pointer : Nat) : TypeKind AstType → RawType
  | .noType => .mk pointer .noType
  | .voidType => .mk pointer .voidType
  | .booleanType => .mk pointer .booleanType
  | .integerType width => .mk pointer (.integerType width)
  | .floatType width => .mk pointer (.floatType width)
  | .placeholderType => .mk pointer .placeholderType
  | .funcType returnType args =>
    .mk pointer (.funcType (typeCopy memory.first returnType) (argsCopy memory.rest args))
  | .namedType name => .mk pointer (.namedType name)
  | .structType members => .mk pointer (.structType (structMembersCopy memory members))
  | .arrayType type length => .mk pointer (.arrayType (typeCopy memory type) length)
  | .sliceType type => .mk pointer (.sliceType (typeCopy memory type))
  | .interfaceType members => .interface pointer (interfaceMembersCopy memory members)
termination_by structural kind => kind

def argsCopy (memory : FreshMemory) : List AstType → List RawType
  | [] => []
  | arg :: args => typeCopy memory.first arg :: argsCopy memory.rest args
termination_by structural args => args

def structMembersCopy (memory : FreshMemory) : List (StructMember AstType) → List (StructMember RawType)
  | [] => []
  | ⟨name, type⟩ :: members => ⟨name, typeCopy memory.first type⟩ :: structMembersCopy memory.rest members
termination_by structural members => members

/-- `md->kind` is not written, nor is `md->func.num_args`. -/
def interfaceMembersCopy (memory : FreshMemory) : List (InterfaceMember AstType) → List (RawMember RawType)
  | [] => []
  | .field name type :: members =>
    ⟨(memory.first []).kind, (memory.first []).numArgs, name, typeCopy memory.first.first type, []⟩ ::
      interfaceMembersCopy memory.rest members
  | .function name returnType args :: members =>
    ⟨(memory.first []).kind, (memory.first []).numArgs, name, typeCopy memory.first.first returnType,
      argsCopy memory.first.rest args⟩ :: interfaceMembersCopy memory.rest members
termination_by structural members => members

end

/-! ### What the readers find -/

mutual

/-- The type that a reader finds, if it finds one. -/
def readBack : RawType → Option AstType
  | .mk pointer kind => return .mk pointer (← readKind kind)
  | .interface pointer members => return .mk pointer (.interfaceType (← readMembers members))
termination_by structural raw => raw

def readKind : TypeKind RawType → Option (TypeKind AstType)
  | .noType => some .noType
  | .voidType => some .voidType
  | .booleanType => some .booleanType
  | .integerType width => some (.integerType width)
  | .floatType width => some (.floatType width)
  | .placeholderType => some .placeholderType
  | .funcType returnType args => return .funcType (← readBack returnType) (← readArgs args args.length)
  | .namedType name => some (.namedType name)
  | .structType members => return .structType (← readStructMembers members)
  | .arrayType type length => return .arrayType (← readBack type) length
  | .sliceType type => return .sliceType (← readBack type)
  | .interfaceType _ => none
termination_by structural kind => kind

/-- The loop up to the number of arguments, which may lead behind the array. -/
def readArgs : List RawType → Nat → Option (List AstType)
  | _, 0 => some []
  | [], _ + 1 => none
  | arg :: args, count + 1 => return (← readBack arg) :: (← readArgs args count)
termination_by structural args => args

def readStructMembers : List (StructMember RawType) → Option (List (StructMember AstType))
  | [] => some []
  | ⟨name, type⟩ :: members => return ⟨name, ← readBack type⟩ :: (← readStructMembers members)
termination_by structural members => members

/-- The `switch` over the kind of each member, which aborts at any other number. -/
def readMembers : List (RawMember RawType) → Option (List (InterfaceMember AstType))
  | [] => some []
  | ⟨kind, numArgs, name, type, args⟩ :: members =>
    if kind = AST_MEMBER_FIELD then
      return .field name (← readBack type) :: (← readMembers members)
    else if kind = AST_MEMBER_FUNCTION then
      return .function name (← readBack type) (← readArgs args numArgs) :: (← readMembers members)
    else none
termination_by structural members => members

end

/-- The copy reads as its source, and so it equals it. -/
def CopiedFaithfully (memory : FreshMemory) (src : AstType) : Prop :=
  ∃ dst, readBack (typeCopy memory src) = some dst ∧ dst = src ∧ typeEqual dst src = true

/-! ### What the memory would have to hold -/

/-- A member of an interface type, with its place in the type around it. -/
structure Tag where
  place : List Bool
  kind : Nat
  numArgs : Option Nat

namespace Tag

def first (tag : Tag) : Tag := { tag with place := false :: tag.place }

def rest (tag : Tag) : Tag := { tag with place := true :: tag.place }

/-- The memory already holds the kind, and of a function the number of arguments. -/
def Held (memory : FreshMemory) (tag : Tag) : Prop :=
  (memory tag.place).kind = tag.kind ∧ ∀ count, tag.numArgs = some count → (memory tag.place).numArgs = count

end Tag

mutual

/-- The members of the interface types in a type. -/
def memberTags : AstType → List Tag
  | .mk _ kind => kindTags kind
termination_by structural type => type

def kindTags : TypeKind AstType → List Tag
  | .funcType returnType args => (memberTags returnType).map Tag.first ++ (argsTags args).map Tag.rest
  | .structType members => structMembersTags members
  | .arrayType type _ => memberTags type
  | .sliceType type => memberTags type
  | .interfaceType members => interfaceMembersTags members
  | _ => []
termination_by structural kind => kind

def argsTags : List AstType → List Tag
  | [] => []
  | arg :: args => (memberTags arg).map Tag.first ++ (argsTags args).map Tag.rest
termination_by structural args => args

def structMembersTags : List (StructMember AstType) → List Tag
  | [] => []
  | ⟨_, type⟩ :: members => (memberTags type).map Tag.first ++ (structMembersTags members).map Tag.rest
termination_by structural members => members

def interfaceMembersTags : List (InterfaceMember AstType) → List Tag
  | [] => []
  | .field _ type :: members =>
    (⟨[], AST_MEMBER_FIELD, none⟩ :: (memberTags type).map Tag.first).map Tag.first ++
      (interfaceMembersTags members).map Tag.rest
  | .function _ returnType args :: members =>
    (⟨[], AST_MEMBER_FUNCTION, some args.length⟩ ::
      ((memberTags returnType).map Tag.first ++ (argsTags args).map Tag.rest)).map Tag.first ++
      (interfaceMembersTags members).map Tag.rest
termination_by structural members => members

end

def AllHeld (memory : FreshMemory) (tags : List Tag) : Prop :=
  ∀ tag ∈ tags, tag.Held memory

section Held
variable {memory : FreshMemory} {tags others : List Tag}

@[simp] theorem allHeld_nil : AllHeld memory [] := fun _ member => absurd member List.not_mem_nil

@[simp] theorem allHeld_cons {tag : Tag} :
    AllHeld memory (tag :: tags) ↔ tag.Held memory ∧ AllHeld memory tags :=
  List.forall_mem_cons

@[simp] theorem allHeld_append : AllHeld memory (tags ++ others) ↔ AllHeld memory tags ∧ AllHeld memory others :=
  List.forall_mem_append

@[simp] theorem allHeld_first : AllHeld memory (tags.map Tag.first) ↔ AllHeld memory.first tags :=
  List.forall_mem_map

@[simp] theorem allHeld_rest : AllHeld memory (tags.map Tag.rest) ↔ AllHeld memory.rest tags :=
  List.forall_mem_map

end Held

@[simp] theorem argsCopy_length (memory : FreshMemory) (args : List AstType) :
    (argsCopy memory args).length = args.length := by
  induction args generalizing memory with
  | nil => rfl
  | cons arg args ih => simp [argsCopy, ih]

theorem readArgs_argsCopy_count {memory : FreshMemory} {args : List AstType} {count : Nat}
    (read : readArgs (argsCopy memory args) count = some args) : count = args.length := by
  induction args generalizing memory count with
  | nil =>
    cases count with
    | zero => rfl
    | succ count => cases read
  | cons arg args ih =>
    cases count with
    | zero => cases read
    | succ count =>
      simp only [argsCopy, readArgs, Option.bind_eq_bind, Option.pure_def, Option.bind_eq_some_iff,
        Option.some.injEq, List.cons.injEq] at read
      obtain ⟨_, _, _, others, _, rfl⟩ := read
      exact congrArg (· + 1) (ih others)

section Members
variable {kind numArgs : Nat} {name : Name} {raw : RawType} {rawArgs : List RawType} {type : AstType}
  {args : List AstType} {rawMembers : List (RawMember RawType)} {members : List (InterfaceMember AstType)}

theorem readMembers_field :
    readMembers (⟨kind, numArgs, name, raw, rawArgs⟩ :: rawMembers) = some (.field name type :: members) ↔
      kind = AST_MEMBER_FIELD ∧ readBack raw = some type ∧ readMembers rawMembers = some members := by
  rw [readMembers]
  split
  case isTrue field => simp [Option.bind_eq_some_iff, field]
  case isFalse other =>
    split
    · simp [Option.bind_eq_some_iff, other]
    · simp [other]

theorem readMembers_function :
    readMembers (⟨kind, numArgs, name, raw, rawArgs⟩ :: rawMembers) = some (.function name type args :: members) ↔
      kind = AST_MEMBER_FUNCTION ∧ readBack raw = some type ∧ readArgs rawArgs numArgs = some args ∧
        readMembers rawMembers = some members := by
  rw [readMembers]
  split
  case isTrue field => simp [Option.bind_eq_some_iff, field, AST_MEMBER_FIELD, AST_MEMBER_FUNCTION]
  case isFalse =>
    split
    case isTrue function => simp [Option.bind_eq_some_iff, function]
    case isFalse other => simp [other]

end Members

mutual

theorem readBack_typeCopy (memory : FreshMemory) :
    (src : AstType) → (readBack (typeCopy memory src) = some src ↔ AllHeld memory (memberTags src))
  | .mk pointer kind => by
    rw [typeCopy, memberTags, readBack_kindCopy memory pointer kind]

theorem readBack_kindCopy (memory : FreshMemory) (pointer : Nat) :
    (kind : TypeKind AstType) →
      (readBack (kindCopy memory pointer kind) = some (.mk pointer kind) ↔ AllHeld memory (kindTags kind))
  | .noType | .voidType | .booleanType | .placeholderType | .integerType _ | .floatType _ | .namedType _ => by
    simp [kindCopy, readBack, readKind, kindTags]
  | .funcType returnType args => by
    simp [kindCopy, readBack, readKind, kindTags, Option.bind_eq_some_iff, readBack_typeCopy memory.first returnType,
      readArgs_argsCopy memory.rest args]
  | .structType members => by
    simp [kindCopy, readBack, readKind, kindTags, Option.bind_eq_some_iff, readStructMembers_copy memory members]
  | .arrayType type length => by
    simp [kindCopy, readBack, readKind, kindTags, Option.bind_eq_some_iff, readBack_typeCopy memory type]
  | .sliceType type => by
    simp [kindCopy, readBack, readKind, kindTags, Option.bind_eq_some_iff, readBack_typeCopy memory type]
  | .interfaceType members => by
    simp [kindCopy, readBack, kindTags, Option.bind_eq_some_iff, readMembers_copy memory members]

theorem readArgs_argsCopy (memory : FreshMemory) :
    (args : List AstType) →
      (readArgs (argsCopy memory args) args.length = some args ↔ AllHeld memory (argsTags args))
  | [] => by simp [argsCopy, readArgs, argsTags]
  | arg :: args => by
    simp [argsCopy, readArgs, argsTags, Option.bind_eq_some_iff, readBack_typeCopy memory.first arg,
      readArgs_argsCopy memory.rest args]

theorem readStructMembers_copy (memory : FreshMemory) :
    (members : List (StructMember AstType)) →
      (readStructMembers (structMembersCopy memory members) = some members ↔
        AllHeld memory (structMembersTags members))
  | [] => by simp [structMembersCopy, readStructMembers, structMembersTags]
  | ⟨name, type⟩ :: members => by
    simp [structMembersCopy, readStructMembers, structMembersTags, Option.bind_eq_some_iff,
      readBack_typeCopy memory.first type, readStructMembers_copy memory.rest members]

theorem readMembers_copy (memory : FreshMemory) :
    (members : List (InterfaceMember AstType)) →
      (readMembers (interfaceMembersCopy memory members) = some members ↔
        AllHeld memory (interfaceMembersTags members))
  | [] => by simp [interfaceMembersCopy, readMembers, interfaceMembersTags]
  | .field name type :: members => by
    simp only [interfaceMembersCopy, readMembers_field, readBack_typeCopy memory.first.first type,
      readMembers_copy memory.rest members, interfaceMembersTags, allHeld_append, allHeld_first, allHeld_rest,
      allHeld_cons]
    exact ⟨fun ⟨kind, below, others⟩ => ⟨⟨⟨kind, fun _ absent => nomatch absent⟩, below⟩, others⟩,
      fun ⟨⟨held, below⟩, others⟩ => ⟨held.1, below, others⟩⟩
  | .function name returnType args :: members => by
    simp only [interfaceMembersCopy, readMembers_function, readBack_typeCopy memory.first.first returnType,
      readMembers_copy memory.rest members, interfaceMembersTags, allHeld_append, allHeld_first, allHeld_rest,
      allHeld_cons]
    have argsHeld := readArgs_argsCopy memory.first.rest args
    constructor
    · rintro ⟨kind, returns, read, others⟩
      have count := readArgs_argsCopy_count read
      rw [count] at read
      exact ⟨⟨⟨kind, fun _ present => count.trans (Option.some.inj present)⟩, returns, argsHeld.mp read⟩, others⟩
    · rintro ⟨⟨⟨kind, count⟩, returns, below⟩, others⟩
      refine ⟨kind, returns, ?_, others⟩
      rw [show (memory.first []).numArgs = args.length from count _ rfl]
      exact argsHeld.mpr below

end

/-! ### When a copy is faithful -/

theorem copiedFaithfully_iff (memory : FreshMemory) (src : AstType) :
    CopiedFaithfully memory src ↔ AllHeld memory (memberTags src) := by
  rw [← readBack_typeCopy]
  constructor
  · rintro ⟨_, read, rfl, _⟩
    exact read
  · exact fun read => ⟨src, read, rfl, typeEqual_refl src⟩

/-- A copy is faithful just when the memory for the members of its interface types already held their kinds
and numbers of arguments. So it is faithful in any memory just when there are no such members. -/
theorem typeCopy_faithful (src : AstType) :
    (∀ memory, CopiedFaithfully memory src ↔ AllHeld memory (memberTags src)) ∧
      ((∀ memory, CopiedFaithfully memory src) ↔ memberTags src = []) := by
  refine ⟨fun memory => copiedFaithfully_iff memory src, ?_⟩
  simp only [copiedFaithfully_iff]
  constructor
  · intro always
    refine List.eq_nil_iff_forall_not_mem.mpr fun tag member => ?_
    have held := always (fun _ => ⟨tag.kind + 1, 0⟩) tag member
    exact Nat.succ_ne_self _ held.1
  · intro none memory
    rw [none]
    exact allHeld_nil

/-- FreshMemory that held zeros, and an interface type with one function of one argument. The
function is copied as a field, so the copy is another type. -/
theorem function_copied_as_field :
    let src : AstType := .mk 0 (.interfaceType [.function [102] (.integer 32) [.boolean]])
    ¬CopiedFaithfully (fun _ => ⟨0, 0⟩) src := by
  intro src faithful
  rw [copiedFaithfully_iff] at faithful
  have held := (faithful ⟨[false], AST_MEMBER_FUNCTION, some 1⟩ (.head _)).1
  cases held

end Low
