import Mathlib.Data.List.Basic

/-!
# Command line options

`parse_options` compacts the argument vector in place, with a read and a write cursor; a
handler of a short option moves the read cursor over its operands. What is left are the
positional arguments, but a lone hyphen is lost.
-/

namespace Low

/-- The bytes of an argument, in front of the terminating null. -/
abbrev Arg := List UInt8

/-- How `parse_options` can end without returning. The program exits with a message, except
that `outOfBounds` stands for an access outside the vector. -/
inductive OptionFailure where
  | expectedOutputName
  | unknownShort (opt : UInt8)
  | unknownLong (opt : Arg)
  | outOfBounds
  | outOfFuel
  deriving DecidableEq, Repr

def hyphen : UInt8 := '-'.toUInt8

def parseShortOption (argv : List Arg) (opt : UInt8) (argi arge : Nat) : Except OptionFailure (Nat × Arg) :=
  if opt = 'o'.toUInt8 then
    let argi := argi + 1
    if argi = arge then .error .expectedOutputName
    else
      match argv[argi]? with
      | some outputName => .ok (argi, outputName)
      | none => .error .outOfBounds
  else .error (.unknownShort opt)

def parseLongOption (opt : Arg) : OptionFailure := .unknownLong opt

/-- The options behind one hyphen, each with the operands it takes. -/
def parseCluster (argv : List Arg) (arge : Nat) :
    List UInt8 → Nat → Option Arg → Except OptionFailure (Nat × Option Arg)
  | [], argi, outputName => .ok (argi, outputName)
  | c :: cs, argi, _ =>
    match parseShortOption argv c argi arge with
    | .ok (argi, outputName) => parseCluster argv arge cs argi (some outputName)
    | .error e => .error e

structure OptionState where
  argv : List Arg
  argi : Nat
  argo : Nat
  outputName : Option Arg
  deriving DecidableEq, Repr

/-- `*argo++ = *argi`. -/
def OptionState.keep (s : OptionState) : Except OptionFailure OptionState :=
  match s.argv[s.argi]? with
  | some arg =>
    if s.argo < s.argv.length then .ok { s with argv := s.argv.set s.argo arg, argo := s.argo + 1 }
    else .error .outOfBounds
  | none => .error .outOfBounds

def readOptions (arge : Nat) : Nat → OptionState → Except OptionFailure OptionState
  | 0, _ => .error .outOfFuel
  | fuel + 1, s =>
    if s.argi = arge then .ok s
    else
      match s.argv[s.argi]? with
      | none => .error .outOfBounds
      | some arg =>
        if arg[0]? = some hyphen then
          if arg[1]? = some hyphen then
            if arg[2]? = none then .ok { s with argi := s.argi + 1 }
            else .error (parseLongOption (arg.drop 2))
          else
            match parseCluster s.argv arge (arg.drop 1) s.argi s.outputName with
            | .ok (argi, outputName) =>
              readOptions arge fuel { s with argi := argi + 1, outputName := outputName }
            | .error e => .error e
        else
          match s.keep with
          | .ok s => readOptions arge fuel { s with argi := s.argi + 1 }
          | .error e => .error e

def readRest (arge : Nat) : Nat → OptionState → Except OptionFailure OptionState
  | 0, _ => .error .outOfFuel
  | fuel + 1, s =>
    if s.argi = arge then .ok s
    else
      match s.keep with
      | .ok s => readRest arge fuel { s with argi := s.argi + 1 }
      | .error e => .error e

/-- The vector that is left, its length, and `options.output_name`. -/
def parseOptions (argv : List Arg) : Except OptionFailure (List Arg × Nat × Option Arg) := do
  let arge := argv.length
  let s ← readOptions arge (arge + 1) ⟨argv, 1, 1, none⟩
  let s ← readRest arge (arge + 1) s
  .ok (s.argv, s.argo, s.outputName)

/-! ### What the arguments are -/

/-- A positional argument, one behind the separator, a cluster of options, an operand, the
separator, or an operand that is not there. -/
inductive Role where
  | positional
  | verbatim
  | cluster
  | operand
  | separator
  | missing
  deriving DecidableEq, Repr

def IsCluster (arg : Arg) : Prop := arg.take 1 = [hyphen] ∧ arg.drop 1 ≠ [] ∧ ∀ c ∈ arg.drop 1, c = 'o'.toUInt8

instance (arg : Arg) : Decidable (IsCluster arg) :=
  inferInstanceAs (Decidable (arg.take 1 = [hyphen] ∧ arg.drop 1 ≠ [] ∧ ∀ c ∈ arg.drop 1, c = 'o'.toUInt8))

/-- The roles of the arguments, when so many operands are still to come. -/
def roles : Nat → List Arg → List Role
  | n, [] => List.replicate n .missing
  | n + 1, _ :: args => .operand :: roles n args
  | 0, arg :: args =>
    if arg = [hyphen, hyphen] then .separator :: args.map fun _ => .verbatim
    else if IsCluster arg then .cluster :: roles (arg.drop 1).length args
    else .positional :: roles 0 args

def inRoles (n : Nat) (args : List Arg) : List (Arg × Role) := args.zip (roles n args)

def positionals (args : List Arg) : List Arg :=
  ((inRoles 0 args).filter fun p => p.2 = .positional ∨ p.2 = .verbatim).map Prod.fst

/-- A hyphen stands by itself in front of the separator. -/
def LoneHyphen (args : List Arg) : Prop := ([hyphen], Role.positional) ∈ inRoles 0 args

/-- An operand is missing, or some argument starts like an option and is none. -/
def RefusedOptions (n : Nat) (args : List Arg) : Prop :=
  .missing ∈ roles n args ∨ ∃ arg, (arg, Role.positional) ∈ inRoles n args ∧ arg.take 1 = [hyphen] ∧ arg ≠ [hyphen]

/-- What the loops leave: the arguments that are no options, without the lone hyphens. -/
def leftOver (n : Nat) (args : List Arg) : List Arg :=
  ((inRoles n args).filter fun p => p.2 = .positional ∧ p.1 ≠ [hyphen] ∨ p.2 = .verbatim).map Prod.fst

section Roles
variable {arg : Arg} {args : List Arg} {n : Nat}

theorem roles_positional (other : arg ≠ [hyphen, hyphen]) (single : ¬IsCluster arg) :
    roles 0 (arg :: args) = .positional :: roles 0 args := by
  rw [roles, if_neg other, if_neg single]

theorem roles_cluster (cluster : IsCluster arg) :
    roles 0 (arg :: args) = .cluster :: roles (arg.drop 1).length args := by
  have other : arg ≠ [hyphen, hyphen] := by
    rintro rfl
    exact absurd (cluster.2.2 hyphen (by simp)) (by decide)
  rw [roles, if_neg other, if_pos cluster]

theorem roles_separator : roles 0 ([hyphen, hyphen] :: args) = .separator :: args.map fun _ => .verbatim := by
  rw [roles, if_pos rfl]

theorem roles_operands (enough : n ≤ args.length) :
    roles n args = List.replicate n .operand ++ roles 0 (args.drop n) := by
  induction args generalizing n with
  | nil =>
    obtain rfl : n = 0 := Nat.le_zero.mp enough
    rfl
  | cons arg args ih =>
    cases n with
    | zero => rfl
    | succ n =>
      rw [roles, ih (Nat.le_of_succ_le_succ enough)]
      rfl

theorem missing_of_short (short : args.length < n) : .missing ∈ roles n args := by
  induction args generalizing n with
  | nil =>
    simp only [roles, List.mem_replicate, and_true]
    exact Nat.ne_of_gt short
  | cons arg args ih =>
    cases n with
    | zero => exact absurd short (Nat.not_lt_zero _)
    | succ n => exact List.mem_cons_of_mem _ (ih (Nat.lt_of_succ_lt_succ short))

theorem inRoles_operands (enough : n ≤ args.length) :
    inRoles n args = (args.take n).zip (List.replicate n .operand) ++ inRoles 0 (args.drop n) := by
  have split : args.take n ++ args.drop n = args := List.take_append_drop n args
  have whole := @List.zip_append _ _ (args.take n) (args.drop n) (List.replicate n Role.operand) (roles 0 (args.drop n))
    (by simp [enough])
  rw [split] at whole
  rw [inRoles, roles_operands enough, whole]
  rfl

theorem operands_only {p : Arg × Role} (member : p ∈ (args.take n).zip (List.replicate n Role.operand)) :
    p.2 = .operand :=
  List.eq_of_mem_replicate (List.of_mem_zip member).2

theorem leftOver_operands (enough : n ≤ args.length) : leftOver n args = leftOver 0 (args.drop n) := by
  unfold leftOver
  rw [inRoles_operands enough, List.filter_append]
  have none : ((args.take n).zip (List.replicate n Role.operand)).filter
      (fun p => p.2 = .positional ∧ p.1 ≠ [hyphen] ∨ p.2 = .verbatim) = [] := by
    rw [List.filter_eq_nil_iff]
    intro p member
    simp [operands_only member]
  rw [none, List.nil_append]

theorem refused_operands : RefusedOptions n args ↔ args.length < n ∨ RefusedOptions 0 (args.drop n) := by
  by_cases enough : n ≤ args.length
  · unfold RefusedOptions
    rw [roles_operands enough, inRoles_operands enough]
    constructor
    · rintro (missing | ⟨arg, member, bad⟩)
      · rcases List.mem_append.mp missing with wrong | there
        · cases List.eq_of_mem_replicate wrong
        · exact .inr (.inl there)
      · rcases List.mem_append.mp member with wrong | there
        · cases operands_only wrong
        · exact .inr (.inr ⟨arg, there, bad⟩)
    · rintro (short | missing | ⟨arg, member, bad⟩)
      · omega
      · exact .inl (List.mem_append_right _ missing)
      · exact .inr ⟨arg, List.mem_append_right _ member, bad⟩
  · have short : args.length < n := by omega
    exact ⟨fun _ => .inl short, fun _ => .inl (missing_of_short short)⟩

/-- An argument in front of the separator that is no cluster. -/
theorem inRoles_positional (other : arg ≠ [hyphen, hyphen]) (single : ¬IsCluster arg) :
    inRoles 0 (arg :: args) = (arg, .positional) :: inRoles 0 args := by
  rw [inRoles, roles_positional other single]
  rfl

theorem leftOver_positional (other : arg ≠ [hyphen, hyphen]) (single : ¬IsCluster arg) (lone : arg ≠ [hyphen]) :
    leftOver 0 (arg :: args) = arg :: leftOver 0 args := by
  simp [leftOver, inRoles_positional other single, lone]

theorem refused_positional (other : arg ≠ [hyphen, hyphen]) (single : ¬IsCluster arg) :
    RefusedOptions 0 (arg :: args) ↔ (arg.take 1 = [hyphen] ∧ arg ≠ [hyphen]) ∨ RefusedOptions 0 args := by
  unfold RefusedOptions
  rw [inRoles_positional other single, roles_positional other single]
  constructor
  · rintro (missing | ⟨a, member, bad⟩)
    · exact .inr (.inl (by simpa using missing))
    · rcases List.mem_cons.mp member with here | there
      · obtain ⟨rfl, _⟩ := Prod.mk.inj here
        exact .inl bad
      · exact .inr (.inr ⟨a, there, bad⟩)
  · rintro (bad | missing | ⟨a, member, bad⟩)
    · exact .inr ⟨arg, List.mem_cons_self, bad⟩
    · exact .inl (List.mem_cons_of_mem _ missing)
    · exact .inr ⟨a, List.mem_cons_of_mem _ member, bad⟩

theorem plain_other (plain : arg.take 1 ≠ [hyphen]) :
    arg ≠ [hyphen, hyphen] ∧ ¬IsCluster arg ∧ arg ≠ [hyphen] := by
  refine ⟨?_, fun cluster => plain cluster.1, ?_⟩
  · rintro rfl
    exact plain rfl
  · rintro rfl
    exact plain rfl

theorem leftOver_plain (plain : arg.take 1 ≠ [hyphen]) : leftOver 0 (arg :: args) = arg :: leftOver 0 args := by
  obtain ⟨other, single, lone⟩ := plain_other plain
  exact leftOver_positional other single lone

theorem refused_plain (plain : arg.take 1 ≠ [hyphen]) :
    RefusedOptions 0 (arg :: args) ↔ RefusedOptions 0 args := by
  obtain ⟨other, single, _⟩ := plain_other plain
  simp [refused_positional other single, plain]

theorem lone_other : [hyphen] ≠ [hyphen, hyphen] ∧ ¬IsCluster [hyphen] := by decide

theorem leftOver_lone : leftOver 0 ([hyphen] :: args) = leftOver 0 args := by
  simp [leftOver, inRoles_positional lone_other.1 lone_other.2]

theorem refused_lone : RefusedOptions 0 ([hyphen] :: args) ↔ RefusedOptions 0 args := by
  simp [refused_positional lone_other.1 lone_other.2]

theorem inRoles_cluster (cluster : IsCluster arg) :
    inRoles 0 (arg :: args) = (arg, .cluster) :: inRoles (arg.drop 1).length args := by
  rw [inRoles, roles_cluster cluster]
  rfl

theorem leftOver_cluster (cluster : IsCluster arg) :
    leftOver 0 (arg :: args) = leftOver (arg.drop 1).length args := by
  simp [leftOver, inRoles_cluster cluster]

theorem refused_cluster (cluster : IsCluster arg) :
    RefusedOptions 0 (arg :: args) ↔ RefusedOptions (arg.drop 1).length args := by
  simp [RefusedOptions, inRoles_cluster cluster, roles_cluster cluster]

theorem inRoles_separator :
    inRoles 0 ([hyphen, hyphen] :: args) = ([hyphen, hyphen], .separator) :: args.map fun arg => (arg, .verbatim) := by
  have verbatim := @List.zip_map' _ _ _ id (fun _ => Role.verbatim) args
  rw [List.map_id] at verbatim
  rw [inRoles, roles_separator, List.zip_cons_cons, verbatim]
  rfl

theorem leftOver_separator : leftOver 0 ([hyphen, hyphen] :: args) = args := by
  simp [leftOver, inRoles_separator, List.filter_map, Function.comp_def]

theorem not_refused_separator : ¬RefusedOptions 0 ([hyphen, hyphen] :: args) := by
  simp [RefusedOptions, inRoles_separator, roles_separator]

end Roles

/-! ### The loops -/

/-- The read cursor is in the vector, and the write cursor not beyond it. -/
structure OptionState.Inside (s : OptionState) (arge : Nat) : Prop where
  length : s.argv.length = arge
  write : s.argo ≤ s.argi
  read : s.argi ≤ arge

def OptionState.kept (s : OptionState) : List Arg := s.argv.take s.argo

def OptionState.unread (s : OptionState) : List Arg := s.argv.drop s.argi

section Loops
variable {s : OptionState} {arge fuel : Nat} {arg : Arg} {args : List Arg}

theorem unread_cons (inside : s.Inside arge) (less : s.argi ≠ arge) :
    ∃ arg, s.argv[s.argi]? = some arg ∧ s.unread = arg :: s.argv.drop (s.argi + 1) := by
  have bound : s.argi < s.argv.length := by
    have := inside.length
    have := inside.read
    omega
  exact ⟨s.argv[s.argi], List.getElem?_eq_getElem bound, List.drop_eq_getElem_cons bound⟩

/-- Keeping an argument writes in front of what is unread. -/
theorem keep_ok (inside : s.Inside arge) (less : s.argi ≠ arge) (found : s.argv[s.argi]? = some arg) :
    ∃ argv, s.keep = .ok { s with argv := argv, argo := s.argo + 1 } ∧ argv.length = arge ∧
      argv.take (s.argo + 1) = s.kept ++ [arg] ∧ argv.drop (s.argi + 1) = s.argv.drop (s.argi + 1) := by
  have bound : s.argo < s.argv.length := by
    have := inside.length
    have := inside.write
    have := inside.read
    omega
  refine ⟨s.argv.set s.argo arg, ?_, ?_, ?_, ?_⟩
  · simp only [OptionState.keep, found, if_pos bound]
  · rw [List.length_set, inside.length]
  · have size : (s.argv.take s.argo).length = s.argo := List.length_take_of_le (Nat.le_of_lt bound)
    rw [List.set_eq_take_append_cons_drop, if_pos bound, OptionState.kept, List.take_append, size]
    simp [List.take_take]
  · exact List.drop_set_of_lt (Nat.lt_succ_of_le inside.write)

/-- What stands behind the separator is kept as it is. -/
theorem readRest_ok (inside : s.Inside arge) (enough : arge < s.argi + fuel) :
    ∃ s', readRest arge fuel s = .ok s' ∧ s'.argv.length = arge ∧ s'.argo ≤ arge ∧
      s'.outputName = s.outputName ∧
      s'.kept = s.kept ++ s.unread := by
  induction fuel generalizing s with
  | zero =>
    have := inside.read
    omega
  | succ fuel ih =>
    unfold readRest
    by_cases done : s.argi = arge
    · refine ⟨s, if_pos done, inside.length, ?_, rfl, ?_⟩
      · have := inside.write
        rwa [done] at this
      · have empty : s.unread = [] := List.drop_eq_nil_of_le (Nat.le_of_eq (inside.length.trans done.symm))
        rw [empty, List.append_nil]
    · obtain ⟨arg, found, rest⟩ := unread_cons inside done
      obtain ⟨argv, keeps, length, kept, unread⟩ := keep_ok inside done found
      rw [if_neg done, keeps]
      have inside' : OptionState.Inside { s with argv := argv, argi := s.argi + 1, argo := s.argo + 1 } arge := by
        refine ⟨length, Nat.succ_le_succ inside.write, ?_⟩
        have := inside.read
        show s.argi + 1 ≤ arge
        omega
      obtain ⟨s', run, length', write, name, all⟩ := ih inside' (by show arge < s.argi + 1 + fuel; omega)
      refine ⟨s', run, length', write, name, ?_⟩
      rw [all, rest]
      simp only [OptionState.kept, OptionState.unread] at kept unread ⊢
      rw [kept, unread, List.append_assoc]
      rfl

theorem parseShortOption_output {argv : List Arg} {argi : Nat} (bound : argi + 1 < argv.length) :
    parseShortOption argv 'o'.toUInt8 argi argv.length = .ok (argi + 1, argv[argi + 1]) := by
  unfold parseShortOption
  rw [if_pos rfl]
  simp only [if_neg (Nat.ne_of_lt bound), List.getElem?_eq_getElem bound]

/-- A cluster takes an operand for each of its options. -/
theorem parseCluster_ok {cs : List UInt8} {argv : List Arg} {argi : Nat} {outputName : Option Arg}
    (all : ∀ c ∈ cs, c = 'o'.toUInt8) (enough : argi + cs.length < argv.length) :
    ∃ name, parseCluster argv argv.length cs argi outputName = .ok (argi + cs.length, name) := by
  induction cs generalizing argi outputName with
  | nil => exact ⟨outputName, rfl⟩
  | cons c cs ih =>
    obtain ⟨rfl, others⟩ := List.forall_mem_cons.mp all
    rw [List.length_cons] at enough ⊢
    have bound : argi + 1 < argv.length := by omega
    obtain ⟨name, run⟩ := @ih (argi + 1) (some argv[argi + 1]) others (by omega)
    refine ⟨name, ?_⟩
    simp only [parseCluster, parseShortOption_output bound, run]
    rw [Nat.add_right_comm, Nat.add_assoc]

/-- With another option, or an operand too few, the program exits. -/
theorem parseCluster_error {cs : List UInt8} {argv : List Arg} {argi : Nat} {outputName : Option Arg}
    (inside : argi < argv.length) (bad : (∃ c ∈ cs, c ≠ 'o'.toUInt8) ∨ argv.length ≤ argi + cs.length) :
    ∃ e, parseCluster argv argv.length cs argi outputName = .error e ∧ e ≠ .outOfBounds ∧ e ≠ .outOfFuel := by
  induction cs generalizing argi outputName with
  | nil =>
    rcases bad with ⟨c, member, _⟩ | short
    · cases member
    · exact absurd short (Nat.not_le_of_lt inside)
  | cons c cs ih =>
    by_cases known : c = 'o'.toUInt8
    · subst known
      by_cases last : argi + 1 = argv.length
      · simp [parseCluster, parseShortOption, last]
      · have bound : argi + 1 < argv.length := by omega
        have rest : (∃ c ∈ cs, c ≠ 'o'.toUInt8) ∨ argv.length ≤ argi + 1 + cs.length := by
          rcases bad with ⟨d, member, other⟩ | short
          · rcases List.mem_cons.mp member with rfl | member
            · exact absurd rfl other
            · exact .inl ⟨d, member, other⟩
          · rw [List.length_cons] at short
            exact .inr (by omega)
        simp only [parseCluster, parseShortOption_output bound]
        exact ih bound rest
    · simp [parseCluster, parseShortOption, known]

section Turn
variable {cs : List UInt8} (less : s.argi ≠ arge)
include less

theorem readOptions_plain (plain : arg.take 1 ≠ [hyphen]) (found : s.argv[s.argi]? = some arg) {argv : List Arg}
    (keeps : s.keep = .ok { s with argv := argv, argo := s.argo + 1 }) :
    readOptions arge (fuel + 1) s =
      readOptions arge fuel { s with argv := argv, argi := s.argi + 1, argo := s.argo + 1 } := by
  have first : arg[0]? ≠ some hyphen := by
    intro starts
    cases arg with
    | nil => cases starts
    | cons c cs => exact plain (congrArg (fun c => [c]) (Option.some.inj starts))
  rw [readOptions, if_neg less, found]
  simp only [if_neg first, keeps]

theorem readOptions_separator (found : s.argv[s.argi]? = some [hyphen, hyphen]) :
    readOptions arge (fuel + 1) s = .ok { s with argi := s.argi + 1 } := by
  rw [readOptions, if_neg less, found]
  rfl

theorem readOptions_long {c : UInt8} (found : s.argv[s.argi]? = some (hyphen :: hyphen :: c :: cs)) :
    readOptions arge (fuel + 1) s = .error (.unknownLong (c :: cs)) := by
  rw [readOptions, if_neg less, found]
  rfl

theorem readOptions_cluster (single : cs[0]? ≠ some hyphen) (found : s.argv[s.argi]? = some (hyphen :: cs))
    {argi : Nat} {outputName : Option Arg}
    (run : parseCluster s.argv arge cs s.argi s.outputName = .ok (argi, outputName)) :
    readOptions arge (fuel + 1) s = readOptions arge fuel { s with argi := argi + 1, outputName := outputName } := by
  have second : (hyphen :: cs)[1]? ≠ some hyphen := by simpa using single
  rw [readOptions, if_neg less, found]
  simp only [List.getElem?_cons_zero, if_pos, if_neg second, List.drop_succ_cons, List.drop_zero, run]

theorem readOptions_refused (single : cs[0]? ≠ some hyphen) (found : s.argv[s.argi]? = some (hyphen :: cs))
    {e : OptionFailure} (run : parseCluster s.argv arge cs s.argi s.outputName = .error e) :
    readOptions arge (fuel + 1) s = .error e := by
  have second : (hyphen :: cs)[1]? ≠ some hyphen := by simpa using single
  rw [readOptions, if_neg less, found]
  simp only [List.getElem?_cons_zero, if_pos, if_neg second, List.drop_succ_cons, List.drop_zero, run]

end Turn

/-- The loop leaves what its end keeps and what it did not read, or the program exits. -/
def ReadsOn (arge fuel : Nat) (s : OptionState) : Prop :=
  (RefusedOptions 0 s.unread → ∃ e, readOptions arge fuel s = .error e ∧ e ≠ .outOfBounds ∧ e ≠ .outOfFuel) ∧
  (¬RefusedOptions 0 s.unread → ∃ s', readOptions arge fuel s = .ok s' ∧ s'.Inside arge ∧
    s'.kept ++ s'.unread = s.kept ++ leftOver 0 s.unread)

theorem readsOn_error {e : OptionFailure} (refused : RefusedOptions 0 s.unread) (run : readOptions arge fuel s = .error e)
    (fails : e ≠ .outOfBounds ∧ e ≠ .outOfFuel) : ReadsOn arge fuel s :=
  ⟨fun _ => ⟨e, run, fails⟩, fun accepted => absurd refused accepted⟩

theorem readsOn_plain (inside : s.Inside arge) (done : s.argi ≠ arge) (plain : arg.take 1 ≠ [hyphen])
    (found : s.argv[s.argi]? = some arg) (rest : s.unread = arg :: s.argv.drop (s.argi + 1))
    (next : ∀ s' : OptionState, s'.Inside arge → s'.argi = s.argi + 1 → ReadsOn arge fuel s') :
    ReadsOn arge (fuel + 1) s := by
  obtain ⟨argv, keeps, length, kept, unread⟩ := keep_ok inside done found
  have bound : s.argi + 1 ≤ arge := Nat.lt_of_le_of_ne inside.read done
  let s' : OptionState := { s with argv := argv, argi := s.argi + 1, argo := s.argo + 1 }
  have turn := next s' ⟨length, Nat.succ_le_succ inside.write, bound⟩ rfl
  have same : s'.unread = s.argv.drop (s.argi + 1) := unread
  have more : s'.kept = s.kept ++ [arg] := kept
  unfold ReadsOn at turn ⊢
  rw [same, more] at turn
  rw [rest, refused_plain plain, leftOver_plain plain, readOptions_plain done plain found keeps]
  simpa using turn

/-- Two hyphens and nothing behind them are the separator. -/
theorem readsOn_double {cs : List UInt8} (inside : s.Inside arge) (done : s.argi ≠ arge)
    (found : s.argv[s.argi]? = some (hyphen :: hyphen :: cs))
    (rest : s.unread = (hyphen :: hyphen :: cs) :: s.argv.drop (s.argi + 1)) : ReadsOn arge (fuel + 1) s := by
  cases cs with
  | nil =>
    have bound : s.argi + 1 ≤ arge := Nat.lt_of_le_of_ne inside.read done
    unfold ReadsOn
    rw [rest]
    refine ⟨fun refused => absurd refused not_refused_separator, fun _ => ⟨_, readOptions_separator done found, ?_, ?_⟩⟩
    · exact ⟨inside.length, Nat.le_succ_of_le inside.write, bound⟩
    · rw [leftOver_separator]
      rfl
  | cons c cs =>
    have single : ¬IsCluster (hyphen :: hyphen :: c :: cs) := by
      intro cluster
      exact absurd (cluster.2.2 hyphen List.mem_cons_self) (by decide)
    have refused : RefusedOptions 0 s.unread := by
      rw [rest, refused_positional (by simp) single]
      exact .inl ⟨rfl, by simp⟩
    exact readsOn_error refused (readOptions_long done found) ⟨nofun, nofun⟩

/-- A single hyphen, with nothing behind it or with options that find their operands. -/
theorem readsOn_options {cs : List UInt8} (inside : s.Inside s.argv.length) (bound : s.argi + cs.length < s.argv.length)
    (single : cs[0]? ≠ some hyphen) (all : ∀ c ∈ cs, c = 'o'.toUInt8) (found : s.argv[s.argi]? = some (hyphen :: cs))
    (rest : s.unread = (hyphen :: cs) :: s.argv.drop (s.argi + 1))
    (next : ∀ s' : OptionState, s'.Inside s.argv.length → s'.argi = s.argi + cs.length + 1 → ReadsOn s.argv.length fuel s') :
    ReadsOn s.argv.length (fuel + 1) s := by
  have done : s.argi ≠ s.argv.length := by omega
  obtain ⟨name, run⟩ := @parseCluster_ok cs s.argv s.argi s.outputName all bound
  let s' : OptionState := { s with argi := s.argi + cs.length + 1, outputName := name }
  have write : s.argo ≤ s.argi + cs.length + 1 := by
    have := inside.write
    omega
  have turn := next s' ⟨rfl, write, bound⟩ rfl
  have unread : s'.unread = (s.argv.drop (s.argi + 1)).drop cs.length := by
    rw [List.drop_drop, Nat.add_right_comm]
    rfl
  have operands : cs.length ≤ (s.argv.drop (s.argi + 1)).length := by
    rw [List.length_drop]
    omega
  unfold ReadsOn at turn ⊢
  rw [unread] at turn
  rw [rest, readOptions_cluster done single found run]
  by_cases lone : cs = []
  · subst lone
    rw [refused_lone, leftOver_lone]
    exact turn
  · have cluster : IsCluster (hyphen :: cs) := ⟨rfl, lone, all⟩
    have enough : ¬(s.argv.drop (s.argi + 1)).length < cs.length := Nat.not_lt_of_le operands
    rw [refused_cluster cluster, leftOver_cluster cluster, List.drop_succ_cons, List.drop_zero, refused_operands,
      leftOver_operands operands]
    simp only [enough, false_or]
    exact turn

/-- A single hyphen with another option, or with an operand too few. -/
theorem readsOn_refused {cs : List UInt8} (less : s.argi < s.argv.length) (single : cs[0]? ≠ some hyphen)
    (bad : (∃ c ∈ cs, c ≠ 'o'.toUInt8) ∨ s.argv.length ≤ s.argi + cs.length)
    (found : s.argv[s.argi]? = some (hyphen :: cs))
    (rest : s.unread = (hyphen :: cs) :: s.argv.drop (s.argi + 1)) :
    ReadsOn s.argv.length (fuel + 1) s := by
  obtain ⟨e, run, fails⟩ := @parseCluster_error cs s.argv s.argi s.outputName less bad
  refine readsOn_error ?_ (readOptions_refused (Nat.ne_of_lt less) single found run) fails
  have some : cs ≠ [] := by
    rintro rfl
    rcases bad with ⟨c, member, _⟩ | short
    · cases member
    · exact absurd short (Nat.not_le_of_lt less)
  rw [rest]
  by_cases all : ∀ c ∈ cs, c = 'o'.toUInt8
  · have cluster : IsCluster (hyphen :: cs) := ⟨rfl, some, all⟩
    rw [refused_cluster cluster, refused_operands]
    rcases bad with ⟨c, member, other⟩ | short
    · exact absurd (all c member) other
    · rw [List.drop_succ_cons, List.drop_zero, List.length_drop]
      exact .inl (by omega)
  · have other : hyphen :: cs ≠ [hyphen, hyphen] := by
      intro same
      obtain rfl := (List.cons.inj same).2
      exact single rfl
    rw [refused_positional other fun cluster => all cluster.2.2]
    refine .inl ⟨rfl, ?_⟩
    intro same
    exact some (List.cons.inj same).2

/-- The induction is on the fuel: each turn moves the read cursor, over the operands too. -/
theorem readOptions_spec (inside : s.Inside arge) (enough : arge < s.argi + fuel) : ReadsOn arge fuel s := by
  induction fuel generalizing s with
  | zero =>
    have := inside.read
    omega
  | succ fuel ih =>
    obtain rfl := inside.length
    by_cases done : s.argi = s.argv.length
    · have empty : s.unread = [] := List.drop_eq_nil_of_le (Nat.le_of_eq done.symm)
      unfold ReadsOn
      rw [readOptions, if_pos done, empty]
      refine ⟨fun refused => by simp [RefusedOptions, inRoles, roles] at refused, fun _ => ⟨s, rfl, inside, ?_⟩⟩
      rw [empty]
      rfl
    · obtain ⟨arg, found, rest⟩ := unread_cons inside done
      have less : s.argi < s.argv.length := (List.getElem?_eq_some_iff.mp found).1
      have next (n : Nat) (s' : OptionState) (ready : s'.Inside s.argv.length) (moved : s'.argi = s.argi + n + 1) :
          ReadsOn s.argv.length fuel s' := ih ready (by omega)
      rcases arg with _ | ⟨c, cs⟩
      · exact readsOn_plain inside done (by simp) found rest (next 0)
      · by_cases first : c = hyphen
        · subst first
          by_cases double : cs[0]? = some hyphen
          · rcases cs with _ | ⟨d, ds⟩
            · cases double
            · obtain rfl := Option.some.inj double
              exact readsOn_double inside done found rest
          · by_cases known : (∀ c ∈ cs, c = 'o'.toUInt8) ∧ s.argi + cs.length < s.argv.length
            · exact readsOn_options inside known.2 double known.1 found rest (next cs.length)
            · refine readsOn_refused less double ?_ found rest
              by_cases all : ∀ c ∈ cs, c = 'o'.toUInt8
              · exact .inr (Nat.le_of_not_lt fun bound => known ⟨all, bound⟩)
              · simp only [not_forall, exists_prop] at all
                exact .inl all
        · exact readsOn_plain inside done (by simpa using first) found rest (next 0)

end Loops

section Vector
variable (command : Arg) (args : List Arg)

/-- The state when the command itself has been passed over. -/
def initialOptions : OptionState := ⟨command :: args, 1, 1, none⟩

theorem initialOptions_reads : ReadsOn (command :: args).length ((command :: args).length + 1) (initialOptions command args) := by
  refine readOptions_spec ⟨rfl, Nat.le_refl _, Nat.succ_le_succ (Nat.zero_le _)⟩ ?_
  show _ < 1 + _
  omega

theorem parseOptions_refused (refused : RefusedOptions 0 args) :
    ∃ e, parseOptions (command :: args) = .error e ∧ e ≠ .outOfBounds ∧ e ≠ .outOfFuel := by
  obtain ⟨e, run, fails⟩ := (initialOptions_reads command args).1 refused
  refine ⟨e, ?_, fails⟩
  show (readOptions _ _ (initialOptions command args) >>= _) = _
  rw [run]
  rfl

theorem parseOptions_ok (accepted : ¬RefusedOptions 0 args) :
    ∃ argv argc outputName, parseOptions (command :: args) = .ok (argv, argc, outputName) ∧
      argv.take argc = command :: leftOver 0 args := by
  obtain ⟨s, run, inside, left⟩ := (initialOptions_reads command args).2 accepted
  have enough : (command :: args).length < s.argi + ((command :: args).length + 1) := by omega
  obtain ⟨s', run', _, _, _, kept⟩ := readRest_ok inside enough
  refine ⟨s'.argv, s'.argo, s'.outputName, ?_, ?_⟩
  · show (readOptions _ _ (initialOptions command args) >>= _) = _
    rw [run]
    show (readRest _ _ s >>= _) = _
    rw [run']
    rfl
  · exact kept.trans left

/-- What `parse_options` is for: it stays in the vector, and when it returns, the positional
arguments are left. -/
def KeepsPositionals : Prop :=
  (∀ argv argc outputName, parseOptions (command :: args) = .ok (argv, argc, outputName) →
    argv.take argc = command :: positionals args) ∧
  parseOptions (command :: args) ≠ .error .outOfBounds ∧ parseOptions (command :: args) ≠ .error .outOfFuel

theorem leftOver_eq : leftOver 0 args =
    (((inRoles 0 args).filter fun p => p.2 = .positional ∨ p.2 = .verbatim).filter
      fun p => ¬(p.1 = [hyphen] ∧ p.2 = .positional)).map Prod.fst := by
  unfold leftOver
  rw [List.filter_filter]
  congr 2
  funext p
  obtain ⟨arg, role⟩ := p
  cases role <;> simp

theorem leftOver_iff : leftOver 0 args = positionals args ↔ ¬LoneHyphen args := by
  rw [leftOver_eq]
  unfold positionals
  constructor
  · intro same lone
    have length := congrArg List.length same
    rw [List.length_map, List.length_map, List.length_filter_eq_length_iff] at length
    have wrong := length ([hyphen], .positional) (List.mem_filter.mpr ⟨lone, rfl⟩)
    simp at wrong
  · intro none
    congr 1
    rw [List.filter_eq_self]
    intro p member
    have known := (List.mem_filter.mp member).1
    rw [decide_eq_true_eq]
    rintro ⟨lone, positional⟩
    obtain ⟨arg, role⟩ := p
    obtain rfl : arg = [hyphen] := lone
    obtain rfl : role = .positional := positional
    exact none known

/-- The arguments come through just when no hyphen stands by itself, unless the program exits. -/
theorem keepsPositionals_iff : KeepsPositionals command args ↔ ¬LoneHyphen args ∨ RefusedOptions 0 args := by
  by_cases refused : RefusedOptions 0 args
  · obtain ⟨e, run, bounds, fuel⟩ := parseOptions_refused command args refused
    refine ⟨fun _ => .inr refused, fun _ => ?_⟩
    unfold KeepsPositionals
    rw [run]
    exact ⟨nofun, fun same => bounds (Except.error.inj same), fun same => fuel (Except.error.inj same)⟩
  · obtain ⟨argv, argc, outputName, run, left⟩ := parseOptions_ok command args refused
    unfold KeepsPositionals
    rw [run, ← leftOver_iff]
    constructor
    · rintro ⟨keeps, _⟩
      have same := keeps argv argc outputName rfl
      rw [left] at same
      exact .inl (List.cons.inj same).2
    · rintro (same | wrong)
      · refine ⟨?_, nofun, nofun⟩
        intro argv' argc' outputName' result
        obtain ⟨rfl, rfl, rfl⟩ : argv = argv' ∧ argc = argc' ∧ outputName = outputName' := by
          simpa using Except.ok.inj result
        rw [left, same]
      · exact absurd wrong refused

end Vector

/-- `low - a` compiles `a` alone. -/
theorem lone_hyphen_lost : parseOptions [[108, 111, 119], [hyphen], [97]] = .ok ([[108, 111, 119], [97], [97]], 2, none) ∧
    ¬KeepsPositionals [108, 111, 119] [[hyphen], [97]] := by
  have run : parseOptions [[108, 111, 119], [hyphen], [97]] = .ok ([[108, 111, 119], [97], [97]], 2, none) := by decide +kernel
  have wanted : positionals [[hyphen], [97]] = [[hyphen], [97]] := by decide +kernel
  refine ⟨run, ?_⟩
  rintro ⟨keeps, _⟩
  have same := keeps _ _ _ run
  rw [wanted] at same
  exact absurd same (by decide +kernel)

/-- Each option of a cluster takes its own operand, also one that looks like an option. -/
example : parseOptions [[108, 111, 119], [hyphen, 111, 111], [hyphen, hyphen], [97], [98]] =
    .ok ([[108, 111, 119], [98], [hyphen, hyphen], [97], [98]], 2, some [97]) := by decide +kernel

end Low
