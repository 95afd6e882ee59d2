import LowCompiler.Writer.Phrases

/-!
# Writing types

A pointer is a star before the type, and a function type is a pointer without one.
-/

namespace Low

def commas : List (List Word) → List Word := joined [sign .COMMA]

def stars (pointer : Nat) : TypeKind AstType → Nat
  | .funcType _ _ => pointer - 1
  | _ => pointer

def starless : TypeKind AstType → Nat
  | .funcType _ _ => 1
  | _ => 0

mutual

def writeType : AstType → List Word
  | .mk pointer kind => List.replicate (stars pointer kind) (sign .MUL_OP) ++ writeTypeKind kind
termination_by structural t => t

def writeTypeKind : TypeKind AstType → List Word
  | .noType => []
  | .voidType => [sign .VOID]
  | .booleanType => [name boolWord]
  | .integerType width => [name (intWord ++ digits width)]
  | .floatType width => [name (floatWord ++ digits width)]
  | .funcType returnType args =>
    sign .FUNC :: sign .LPAREN :: (commas (writeTypes args) ++ sign .RPAREN :: writeType returnType)
  | .namedType n => [name n]
  | .structType members =>
    sign .STRUCT :: sign .LBRACE :: (joined [] (writeStructMembers members) ++ [sign .RBRACE])
  | .arrayType type length => sign .LBRACK :: number (digits length) :: sign .RBRACK :: writeType type
  | .sliceType type => sign .LBRACK :: sign .RBRACK :: writeType type
  | .interfaceType members =>
    sign .INTERFACE :: sign .LBRACE :: (joined [] (writeInterfaceMembers members) ++ [sign .RBRACE])
  | .placeholderType => [sign .HASH]
termination_by structural kind => kind

def writeTypes : List AstType → List (List Word)
  | [] => []
  | t :: ts => writeType t :: writeTypes ts
termination_by structural ts => ts

def writeStructMembers : List (StructMember AstType) → List (List Word)
  | [] => []
  | m :: ms => writeStructMember m :: writeStructMembers ms
termination_by structural ms => ms

def writeInterfaceMembers : List (InterfaceMember AstType) → List (List Word)
  | [] => []
  | m :: ms => writeInterfaceMember m :: writeInterfaceMembers ms
termination_by structural ms => ms

def writeStructMember : StructMember AstType → List Word
  | ⟨n, type⟩ => name n :: sign .COLON :: (writeType type ++ [sign .SEMICOLON])
termination_by structural m => m

def writeInterfaceMember : InterfaceMember AstType → List Word
  | .field n type => name n :: sign .COLON :: (writeType type ++ [sign .SEMICOLON])
  | .function n returnType args =>
    sign .FUNC :: name n :: sign .LPAREN ::
      (commas (writeTypes args) ++ sign .RPAREN :: (writeType returnType ++ [sign .SEMICOLON]))
termination_by structural m => m

end

theorem writeTypes_eq (ts : List AstType) : writeTypes ts = ts.map writeType := by
  induction ts with
  | nil => rfl
  | cons t ts ih => rw [writeTypes, ih, List.map_cons]

theorem writeStructMembers_eq (ms : List (StructMember AstType)) :
    writeStructMembers ms = ms.map writeStructMember := by
  induction ms with
  | nil => rfl
  | cons m ms ih => rw [writeStructMembers, ih, List.map_cons]

theorem writeInterfaceMembers_eq (ms : List (InterfaceMember AstType)) :
    writeInterfaceMembers ms = ms.map writeInterfaceMember := by
  induction ms with
  | nil => rfl
  | cons m ms ih => rw [writeInterfaceMembers, ih, List.map_cons]

/-! ### Types that can be written -/

/-- The placeholder of an interface function. -/
def placeholderParam : AstType := .mk 0 .placeholderType

/-- A name that is no type of the language, and does not begin like one. -/
structure IsTypeIdent (n : Name) : Prop where
  ident : IsIdent n
  short : n.length < 2 ^ 32
  bool : n ≠ boolWord
  int : ¬ intWord <+: n
  float : ¬ floatWord <+: n

/-- What the reducers can make: no struct and no interface function without members and parameters,
and a function type is a pointer. -/
def TypeKind.Writable (pointer : Nat) : TypeKind AstType → Prop
  | .noType | .placeholderType => False
  | .voidType | .booleanType | .sliceType _ => True
  | .integerType width | .floatType width => width < 2 ^ 31
  | .funcType _ _ => 0 < pointer
  | .namedType n => IsTypeIdent n
  | .structType members => members ≠ [] ∧ ∀ m ∈ members, IsIdent m.name
  | .arrayType _ length => length < 2 ^ 31
  | .interfaceType members => ∀ m ∈ members, match m with
    | .field n _ => IsIdent n
    | .function n _ args => IsIdent n ∧ args ≠ []

namespace InterfaceMember

variable {T : Type}

def params : InterfaceMember T → List T
  | .field _ _ => []
  | .function _ _ args => args

def result : InterfaceMember T → T
  | .field _ type => type
  | .function _ returnType _ => returnType

end InterfaceMember

namespace TypeKind

variable {T : Type}

/-- The parameters of interface functions, which may be placeholders. -/
def params : TypeKind T → List T
  | .interfaceType members => members.flatMap InterfaceMember.params
  | _ => []

/-- The other types below. -/
def proper : TypeKind T → List T
  | .interfaceType members => members.map InterfaceMember.result
  | kind => kind.parts

end TypeKind

inductive AstType.Writable : AstType → Prop where
  | mk {pointer : Nat} {kind : TypeKind AstType} : kind.Writable pointer → (∀ t ∈ kind.proper, Writable t) →
      (∀ t ∈ kind.params, t ≠ placeholderParam → Writable t) → Writable (.mk pointer kind)

/-! ### A written type is read back -/

section Parses
variable {source : Memory} {ruleIds : Rule → Nat} {w : List Word}

theorem digits_ident {word : Name} (letters : IsWord isIdentStart isIdent word) (n : Nat) :
    IsWord isIdentStart isIdent (word ++ digits n) := by
  have digit : ∀ c, isNumberDec c = true → isIdent c = true := by
    intro c dec
    have all := forall_byte (p := fun c => !isNumberDec c || isIdent c) (by decide +kernel) c
    simpa [dec] using all
  cases word with
  | nil => exact letters.elim
  | cons c rest =>
    refine ⟨letters.1, fun d member => ?_⟩
    rcases List.mem_append.mp member with member | member
    · exact letters.2 d member
    · exact digit d ((digits_spec n).2.1 d member)

/-- No keyword ends in a digit. -/
theorem wordToken_digits (word : Name) (n : Nat) : wordToken (word ++ digits n) = .IDENT := by
  obtain ⟨some, all, _⟩ := digits_spec n
  have lasts : ∀ entry ∈ keywords,
      (entry.1.map Char.toUInt8).getLast?.all (fun c => !isNumberDec c) = true := by decide
  have absent : keywords.find? (fun entry => entry.1.map Char.toUInt8 == word ++ digits n) = none := by
    apply List.find?_eq_none.mpr
    intro entry member same
    have last := lasts entry member
    rw [eq_of_beq same, List.getLast?_append_of_ne_nil _ some, List.getLast?_eq_some_getLast some, Option.all_some,
      all _ (List.getLast_mem some)] at last
    cases last
  unfold wordToken
  rw [absent]

theorem digits_short {n : Nat} (small : n < 2 ^ 31) : (digits n).length ≤ 10 := by
  have length := (Nat.length_toDigits_le_iff (n := n) (k := 10) (b := 10) (by decide) (by decide)).mpr (by omega)
  rwa [digits, List.length_map]

theorem parses_void : Parses source ruleIds [SUB .type] [sign .VOID] [Holds .type (.mk 0 .voidType)] := by
  refine Parses.node (p := ⟨.type, 0⟩) (by decide) (parses_sign .VOID (by decide)) ?_
  intro tokens hold
  obtain _ | ⟨⟨_⟩, _ | _⟩ := hold
  exact ⟨_, rfl, .mk _ _ _ _ rfl⟩

theorem parses_typeOfName {n : Name} {kind : TypeKind AstType} (ident : IsIdent n) (short : n.length < 2 ^ 32)
    (names : typeOfName n = kind) :
    Parses source ruleIds [SUB .type] [name n] [Holds .type (.mk 0 kind)] := by
  refine Parses.node (p := ⟨.type, 1⟩) (by decide) (parses_typeName ident short) ?_
  intro tokens hold
  obtain _ | ⟨⟨_, _, _, read⟩, _ | _⟩ := hold
  refine ⟨_, rfl, .mk _ _ _ _ ?_⟩
  rw [read, names]

theorem parses_width {word : Name} {width : Nat} {kind : TypeKind AstType} (letters : IsWord isIdentStart isIdent word)
    (short : word.length < 10) (small : width < 2 ^ 31) (names : typeOfName (word ++ digits width) = kind) :
    Parses source ruleIds [SUB .type] [name (word ++ digits width)] [Holds .type (.mk 0 kind)] := by
  have length := digits_short small
  refine parses_typeOfName ⟨digits_ident letters width, wordToken_digits word width⟩ ?_ names
  rw [List.length_append]
  omega

theorem hasWidth_digits (word : Name) {width : Nat} (small : width < 2 ^ 31) :
    HasWidth word (word ++ digits width) width := by
  obtain ⟨some, all, value⟩ := digits_spec width
  exact .inr ⟨small, digits width, rfl, some, all, value⟩

/-- Each star adds one to the pointer. -/
theorem parses_stars {pointer : Nat} {kind : TypeKind AstType}
    (below : Parses source ruleIds [SUB .type] w [Holds .type (.mk pointer kind)]) (n : Nat) :
    Parses source ruleIds [SUB .type] (List.replicate n (sign .MUL_OP) ++ w) [Holds .type (.mk (pointer + n) kind)] := by
  induction n with
  | zero => exact below
  | succ n ih =>
    rw [List.replicate_succ, List.cons_append]
    refine Parses.node (p := ⟨.type, 2⟩) (by decide) (ih.sign (by decide)) ?_
    intro tokens hold
    obtain _ | ⟨⟨_⟩, _ | ⟨@⟨_, _, _, _, type, same⟩, _ | _⟩⟩ := hold
    obtain rfl : type = .mk (pointer + n) kind := same
    exact ⟨_, rfl, .mk _ _ _ _ rfl⟩

theorem structMember_list : IsListRule .structMemberList .structMember none .structMember .structMemberList :=
  ⟨rfl, rfl, by decide, nofun, fun _ _ _ => .inl rfl⟩

theorem funcTypeArgs_list : IsListRule .funcTypeArgs .type (some .COMMA) .type .funcTypeArgs :=
  ⟨rfl, rfl, by decide, by decide, fun _ _ _ => .inl rfl⟩

theorem interfaceMember_list :
    IsListRule .interfaceMemberList .interfaceMember none .interfaceMember .interfaceMemberList :=
  ⟨rfl, rfl, by decide, nofun, fun _ _ _ => .inl rfl⟩

theorem interfaceParams_list : IsListRule .interfaceMemberFuncParameterList .interfaceMemberFuncParameter (some .COMMA)
    .type .interfaceMemberFuncParameterList :=
  ⟨rfl, rfl, by decide, by decide, fun _ _ _ => .inl rfl⟩

/-- These values have no locations. -/
theorem map_erase {kind : Kind} (plain : ∀ val, kind.erase val = val) {vals vals' : List kind.Val}
    (same : vals'.map kind.erase = vals.map kind.erase) : vals' = vals := by
  have id : kind.erase = id := funext plain
  rwa [id, List.map_id, List.map_id] at same

theorem parses_func {returnType : AstType} {args : List AstType}
    (result : Parses source ruleIds [SUB .type] (writeType returnType) [Holds .type returnType])
    (each : ∀ t ∈ args, Parses source ruleIds [SUB .type] (writeType t) [Holds .type t]) :
    Parses source ruleIds [SUB .type] (writeTypeKind (.funcType returnType args))
      [Holds .type (.mk 1 (.funcType returnType args))] := by
  rw [writeTypeKind]
  by_cases none : args = []
  · subst none
    refine Parses.node (p := ⟨.type, 6⟩) (by decide) (Parses.sign (by decide) (Parses.sign (by decide) (result.sign (by decide)))) ?_
    intro tokens hold
    obtain _ | ⟨⟨_⟩, _ | ⟨⟨_⟩, _ | ⟨⟨_⟩, _ | ⟨@⟨_, _, _, _, type, same⟩, _ | _⟩⟩⟩⟩ := hold
    obtain rfl : type = returnType := same
    exact ⟨_, rfl, .mk _ _ _ _ rfl⟩
  · have list := funcTypeArgs_list.parses_map none each
    rw [← writeTypes_eq] at list
    refine Parses.node (p := ⟨.type, 7⟩) (by decide) (Parses.sign (by decide) (Parses.sign (by decide) (list.cons (result.sign (by decide))))) ?_
    intro tokens hold
    obtain _ | ⟨⟨_⟩, _ | ⟨⟨_⟩, _ | ⟨@⟨_, _, _, _, types, items⟩, _ | ⟨⟨_⟩, _ | ⟨@⟨_, _, _, _, type, same⟩, _ | _⟩⟩⟩⟩⟩ := hold
    obtain rfl : type = returnType := same
    obtain rfl := map_erase (fun _ => rfl) items
    exact ⟨_, rfl, .mk _ _ _ _ rfl⟩

theorem parses_structMember {m : StructMember AstType} (ident : IsIdent m.name)
    (below : Parses source ruleIds [SUB .type] (writeType m.type) [Holds .type m.type]) :
    Parses source ruleIds [SUB .structMember] (writeStructMember m) [Holds .structMember m] := by
  rw [writeStructMember]
  refine Parses.node (p := ⟨.structMember, 1⟩) (by decide)
    ((parses_name ident).cons (Parses.sign (by decide) (below.cons (parses_sign .SEMICOLON (by decide))))) ?_
  intro tokens hold
  obtain _ | ⟨⟨_, _, _, read⟩, _ | ⟨⟨_⟩, _ | ⟨@⟨_, _, _, _, type, same⟩, _ | ⟨⟨_⟩, _ | _⟩⟩⟩⟩ := hold
  obtain rfl : type = m.type := same
  refine ⟨_, rfl, .mk _ _ _ _ ?_⟩
  rw [read]

theorem parses_placeholder :
    Parses source ruleIds [SUB .interfaceMemberFuncParameter] (writeType placeholderParam) [Holds .type placeholderParam] := by
  refine Parses.node (p := ⟨.interfaceMemberFuncParameter, 0⟩) (by decide) (parses_sign .HASH (by decide)) ?_
  intro tokens hold
  obtain _ | ⟨⟨_⟩, _ | _⟩ := hold
  exact ⟨_, rfl, .mk _ _ _ _ rfl⟩

theorem parses_param {t : AstType}
    (below : t ≠ placeholderParam → Parses source ruleIds [SUB .type] (writeType t) [Holds .type t]) :
    Parses source ruleIds [SUB .interfaceMemberFuncParameter] (writeType t) [Holds .type t] := by
  by_cases is : t = placeholderParam
  · rw [is]
    exact parses_placeholder
  · exact (below is).pass (p := ⟨.interfaceMemberFuncParameter, 1⟩) (by decide) rfl

theorem parses_interfaceMember {m : InterfaceMember AstType}
    (legal : match m with
      | .field n _ => IsIdent n
      | .function n _ args => IsIdent n ∧ args ≠ [])
    (result : Parses source ruleIds [SUB .type] (writeType m.result) [Holds .type m.result])
    (params : ∀ t ∈ m.params, t ≠ placeholderParam → Parses source ruleIds [SUB .type] (writeType t) [Holds .type t]) :
    Parses source ruleIds [SUB .interfaceMember] (writeInterfaceMember m) [Holds .interfaceMember m] := by
  cases m with
  | field n type =>
    rw [writeInterfaceMember]
    refine Parses.node (p := ⟨.interfaceMember, 0⟩) (by decide)
      ((parses_name legal).cons (Parses.sign (by decide) (result.cons (parses_sign .SEMICOLON (by decide))))) ?_
    intro tokens hold
    obtain _ | ⟨⟨_, _, _, read⟩, _ | ⟨⟨_⟩, _ | ⟨@⟨_, _, _, _, type', same⟩, _ | ⟨⟨_⟩, _ | _⟩⟩⟩⟩ := hold
    obtain rfl : type' = type := same
    refine ⟨_, rfl, .mk _ _ _ _ ?_⟩
    rw [read]
  | function n returnType args =>
    have list := interfaceParams_list.parses_map legal.2 fun t member => parses_param (params t member)
    rw [← writeTypes_eq] at list
    rw [writeInterfaceMember]
    refine Parses.node (p := ⟨.interfaceMember, 1⟩) (by decide)
      (Parses.sign (by decide) ((parses_name legal.1).cons (Parses.sign (by decide) (list.cons
        (Parses.sign (by decide) (result.cons (parses_sign .SEMICOLON (by decide)))))))) ?_
    intro tokens hold
    obtain _ | ⟨⟨_⟩, _ | ⟨⟨_, _, _, read⟩, _ | ⟨⟨_⟩, _ | ⟨@⟨_, _, _, _, types, items⟩, _ | ⟨⟨_⟩, _ |
      ⟨@⟨_, _, _, _, type, same⟩, _ | ⟨⟨_⟩, _ | _⟩⟩⟩⟩⟩⟩⟩ := hold
    obtain rfl : type = returnType := same
    obtain rfl := map_erase (fun _ => rfl) items
    refine ⟨_, rfl, .mk _ _ _ _ ?_⟩
    rw [read]

theorem parses_typeKind {pointer : Nat} {kind : TypeKind AstType} (legal : kind.Writable pointer)
    (proper : ∀ t ∈ kind.proper, Parses source ruleIds [SUB .type] (writeType t) [Holds .type t])
    (params : ∀ t ∈ kind.params, t ≠ placeholderParam → Parses source ruleIds [SUB .type] (writeType t) [Holds .type t]) :
    Parses source ruleIds [SUB .type] (writeTypeKind kind) [Holds .type (.mk (starless kind) kind)] := by
  cases kind with
  | noType | placeholderType => exact legal.elim
  | voidType => exact parses_void
  | booleanType => exact parses_typeOfName ⟨by decide, by decide⟩ (by decide) rfl
  | integerType width =>
    refine parses_width (by decide) (by decide) legal ?_
    rw [typeOfName_int (List.prefix_append _ _), widthOf_hasWidth (hasWidth_digits intWord legal)]
  | floatType width =>
    refine parses_width (by decide) (by decide) legal ?_
    rw [typeOfName_float (List.prefix_append _ _), widthOf_hasWidth (hasWidth_digits floatWord legal)]
  | funcType returnType args =>
    exact parses_func (proper returnType List.mem_cons_self) fun t member => proper t (List.mem_cons_of_mem _ member)
  | namedType n =>
    have ident : IsTypeIdent n := legal
    refine parses_typeOfName ident.ident ident.short ?_
    rw [typeOfName_other ident.int ident.float, if_neg ident.bool]
  | structType members =>
    have list := structMember_list.parses_map legal.1 fun m member =>
      parses_structMember (legal.2 m member) (proper m.type (List.mem_map_of_mem member))
    rw [← writeStructMembers_eq] at list
    rw [writeTypeKind]
    refine Parses.node (p := ⟨.type, 3⟩) (by decide)
      (Parses.sign (by decide) (Parses.sign (by decide) (list.cons (parses_sign .RBRACE (by decide))))) ?_
    intro tokens hold
    obtain _ | ⟨⟨_⟩, _ | ⟨⟨_⟩, _ | ⟨@⟨_, _, _, _, members', items⟩, _ | ⟨⟨_⟩, _ | _⟩⟩⟩⟩ := hold
    obtain rfl := map_erase (fun _ => rfl) items
    exact ⟨_, rfl, .mk _ _ _ _ rfl⟩
  | arrayType type length =>
    rw [writeTypeKind]
    refine Parses.node (p := ⟨.type, 4⟩) (by decide)
      (Parses.sign (by decide) ((parses_length legal).cons (Parses.sign (by decide) (proper type (List.mem_singleton_self type))))) ?_
    intro tokens hold
    obtain _ | ⟨⟨_⟩, _ | ⟨⟨_, _, _, read⟩, _ | ⟨⟨_⟩, _ | ⟨@⟨_, _, _, _, type', same⟩, _ | _⟩⟩⟩⟩ := hold
    obtain rfl : type' = type := same
    refine ⟨_, rfl, .mk _ _ _ _ ?_⟩
    rw [read]
    rfl
  | sliceType type =>
    rw [writeTypeKind]
    refine Parses.node (p := ⟨.type, 5⟩) (by decide)
      (Parses.sign (by decide) (Parses.sign (by decide) (proper type (List.mem_singleton_self type)))) ?_
    intro tokens hold
    obtain _ | ⟨⟨_⟩, _ | ⟨⟨_⟩, _ | ⟨@⟨_, _, _, _, type', same⟩, _ | _⟩⟩⟩ := hold
    obtain rfl : type' = type := same
    exact ⟨_, rfl, .mk _ _ _ _ rfl⟩
  | interfaceType members =>
    rw [writeTypeKind]
    by_cases empty : members = []
    · subst empty
      refine Parses.node (p := ⟨.type, 8⟩) (by decide)
        (Parses.sign (by decide) (Parses.sign (by decide) (parses_sign .RBRACE (by decide)))) ?_
      intro tokens hold
      obtain _ | ⟨⟨_⟩, _ | ⟨⟨_⟩, _ | ⟨⟨_⟩, _ | _⟩⟩⟩ := hold
      exact ⟨_, rfl, .mk _ _ _ _ rfl⟩
    · have list := interfaceMember_list.parses_map empty fun m member =>
        parses_interfaceMember (legal m member) (proper m.result (List.mem_map_of_mem member))
          fun t inside => params t (List.mem_flatMap.mpr ⟨m, member, inside⟩)
      rw [← writeInterfaceMembers_eq] at list
      refine Parses.node (p := ⟨.type, 9⟩) (by decide)
        (Parses.sign (by decide) (Parses.sign (by decide) (list.cons (parses_sign .RBRACE (by decide))))) ?_
      intro tokens hold
      obtain _ | ⟨⟨_⟩, _ | ⟨⟨_⟩, _ | ⟨@⟨_, _, _, _, members', items⟩, _ | ⟨⟨_⟩, _ | _⟩⟩⟩⟩ := hold
      obtain rfl := map_erase (fun _ => rfl) items
      exact ⟨_, rfl, .mk _ _ _ _ rfl⟩

theorem starless_add_stars {pointer : Nat} {kind : TypeKind AstType} (legal : kind.Writable pointer) :
    starless kind + stars pointer kind = pointer := by
  cases kind with
  | funcType => exact Nat.add_sub_cancel' legal
  | _ => exact Nat.zero_add pointer

/-- A written type is read as itself. -/
theorem parses_type {t : AstType} (writable : t.Writable) :
    Parses source ruleIds [SUB .type] (writeType t) [Holds .type t] := by
  induction writable with
  | @mk pointer kind legal _ _ proper params =>
    have all := parses_stars (parses_typeKind legal proper params) (stars pointer kind)
    rwa [starless_add_stars legal, ← writeType] at all

end Parses

end Low
