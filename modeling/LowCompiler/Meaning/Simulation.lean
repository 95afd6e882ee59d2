import LowCompiler.Codegen.Straight
import LowCompiler.Meaning.Expressions
import LowCompiler.Meaning.Operators

/-!
# Code that does what an evaluation does

A program that generates code, beside an evaluation: whenever both succeed, a run of the
code from where the builder stands comes to where it stands afterwards, and has done to
memory what the evaluation has done to the world. The rules follow the steps of both.
-/

namespace Low

open Stateful
open Building (Sound Region)
open Llvm (Op Ty Platform Activation Datum Reaches)

def World.At {M : Type} (w : World M) (x : Activation M) : Prop := x.memory = w.memory ∧ x.objects = w.objects

section Simulates
variable {M : Type} (platform : Platform M)

/-- A run from one place of the builder to another, between two worlds. -/
structure Runs (s s' : Building) (x : Activation M) (w w' : World M) (x' : Activation M) : Prop where
  reaches : ∃ events, Reaches platform s'.block x events x' ∧ w'.events = w.events ++ events
  here : s'.Here x'
  atWorld : w'.At x'
  kept : Kept s.results x.registers x'.registers

/-- `Q` holds of both results. The registers below `n` are as in `r`, and nothing is added to the scope. -/
def Simulates {α β : Type} (c : Context) (n : Nat) (r : Nat → Option Datum) (m : Codegen α) (e : Evaluation M β)
    (Q : Nat → (Nat → Option Datum) → α → β → Prop) : Prop :=
  ∀ s a s' x w b w', s.Sound → s.context = c → n ≤ s.results → s.Here x → Kept n r x.registers → w.At x →
    m s = .ok (a, s') → e w = some (b, w') →
      Region s s' ∧ s'.context = c ∧ ∃ x', Runs platform s s' x w w' x' ∧ Q s'.results x'.registers a b

end Simulates

namespace Runs
variable {M : Type} {platform : Platform M} {s s' s'' : Building} {x x' x'' : Activation M} {w w' w'' : World M}

theorem refl (here : s.Here x) (atWorld : w.At x) : Runs platform s s x w w x where
  reaches := ⟨[], .refl _ _ _, (List.append_nil _).symm⟩
  here := here
  atWorld := atWorld
  kept := .refl _ _

theorem trans (first : Runs platform s s' x w w' x') (second : Runs platform s' s'' x' w' w'' x'')
    (region : Region s s') (region' : Region s' s'') : Runs platform s s'' x w w'' x'' := by
  obtain ⟨events, reached, seen⟩ := first.reaches
  obtain ⟨later, reached', seen'⟩ := second.reaches
  refine ⟨⟨events ++ later, (reached.mono region'.continues).trans reached', ?_⟩, second.here, second.atWorld, ?_⟩
  · rw [seen', seen, List.append_assoc]
  · exact first.kept.trans second.kept region.results

end Runs

namespace Simulates
variable {M α β γ δ : Type} {platform : Platform M} {c : Context} {n : Nat} {r : Nat → Option Datum}
  {m : Codegen α} {e : Evaluation M β} {k : α → Codegen γ} {f : β → Evaluation M δ}
  {Q : Nat → (Nat → Option Datum) → α → β → Prop} {R : Nat → (Nat → Option Datum) → γ → δ → Prop}

theorem bind (first : Simulates platform c n r m e Q)
    (rest : ∀ a b n' r', n ≤ n' → Kept n r r' → Q n' r' a b → Simulates platform c n' r' (k a) (f b) R) :
    Simulates platform c n r (m >>= k) (e >>= f) R := by
  intro s a s' x w b w' sound same known here kept atWorld built done
  obtain ⟨a₁, s₁, built, built'⟩ := bind_ok.mp built
  obtain ⟨b₁, w₁, done, done'⟩ := Evaluation.bind_some.mp done
  obtain ⟨region, same₁, x₁, runs, holds⟩ := first s a₁ s₁ x w b₁ w₁ sound same known here kept atWorld built done
  have kept₁ : Kept n r x₁.registers := kept.trans runs.kept known
  obtain ⟨region', same', x', runs', holds'⟩ := rest a₁ b₁ s₁.results x₁.registers (Nat.le_trans known region.results)
    kept₁ holds s₁ a s' x₁ w₁ b w' region.sound same₁ (Nat.le_refl _) runs.here (.refl _ _) runs.atWorld built' done'
  exact ⟨region.trans region', same', x', runs.trans runs' region region', holds'⟩

theorem imp {Q' : Nat → (Nat → Option Datum) → α → β → Prop} (simulates : Simulates platform c n r m e Q)
    (weaker : ∀ n r a b, Q n r a b → Q' n r a b) : Simulates platform c n r m e Q' := by
  intro s a s' x w b w' sound same known here kept atWorld built done
  obtain ⟨region, same', x', runs, holds⟩ := simulates s a s' x w b w' sound same known here kept atWorld built done
  exact ⟨region, same', x', runs, weaker _ _ _ _ holds⟩

/-- The evaluation goes on without the world. -/
theorem returns {f : β → δ} {Q' : Nat → (Nat → Option Datum) → α → δ → Prop} (simulates : Simulates platform c n r m e Q)
    (holds : ∀ n r a b, Q n r a b → Q' n r a (f b)) : Simulates platform c n r m (e >>= fun b => Pure.pure (f b)) Q' := by
  intro s a s' x w d w' sound same known here kept atWorld built done
  obtain ⟨b, _, done, last⟩ := Evaluation.bind_some.mp done
  cases last
  obtain ⟨region, same', x', runs, result⟩ := simulates s a s' x w b w' sound same known here kept atWorld built done
  exact ⟨region, same', x', runs, holds _ _ _ _ result⟩

theorem throw (error : CodegenError) : Simulates platform c n r (throw error : Codegen α) e Q :=
  fun _ _ _ _ _ _ _ _ _ _ _ _ _ built _ => nomatch built

theorem throw_bind (error : CodegenError) {l : γ → Codegen α} :
    Simulates platform c n r ((MonadExcept.throw error : Codegen γ) >>= l) e Q :=
  fun _ _ _ _ _ _ _ _ _ _ _ _ _ built _ => nomatch built

theorem fails : Simulates platform c n r m (failure : Evaluation M β) Q :=
  fun _ _ _ _ _ _ _ _ _ _ _ _ _ _ done => nomatch done

theorem fails_bind {g : β → Evaluation M δ} {l : Codegen γ} :
    Simulates platform c n r l ((Alternative.failure : Evaluation M β) >>= g) R :=
  fun _ _ _ _ _ _ _ _ _ _ _ _ _ _ done => nomatch done

theorem pure {a : α} {b : β} (holds : ∀ n' r', n ≤ n' → Kept n r r' → Q n' r' a b) :
    Simulates platform c n r (Pure.pure a : Codegen α) (Pure.pure b : Evaluation M β) Q := by
  intro s a s' x w b w' sound same known here kept atWorld built done
  cases built
  cases done
  exact ⟨.refl sound, same, x, .refl here atWorld, holds _ _ known kept⟩

/-- A step that only looks at what has been built. -/
theorem still {P : α → Prop} (looks : ∀ s a s', s.context = c → m s = .ok (a, s') → s' = s ∧ P a)
    {g : Evaluation M δ} (rest : ∀ a, P a → Simulates platform c n r (k a) g R) :
    Simulates platform c n r (m >>= k) g R := by
  intro s a s' x w b w' sound same known here kept atWorld built done
  obtain ⟨a₁, s₁, first, later⟩ := bind_ok.mp built
  obtain ⟨rfl, holds⟩ := looks s a₁ s₁ same first
  exact rest a₁ holds _ a s' x w b w' sound same known here kept atWorld later done

/-- A step of the evaluation that leaves the world alone. -/
theorem known {b? : Option β} {g : β → Evaluation M δ} {l : Codegen γ}
    (rest : ∀ b, b? = some b → Simulates platform c n r l (g b) R) :
    Simulates platform c n r l (Low.known b? >>= g) R := by
  intro s a s' x w d w' sound same known here kept atWorld built done
  obtain ⟨b, w₁, is, later⟩ := Evaluation.bind_some.mp done
  obtain ⟨found, rfl⟩ := Evaluation.known_some.mp is
  exact rest b found s a s' x _ d w' sound same known here kept atWorld built later

theorem known_last {b? : Option β} (rest : ∀ b, b? = some b → Simulates platform c n r m (Pure.pure b) Q) :
    Simulates platform c n r m (Low.known b?) Q := by
  rw [← bind_pure (Low.known b?)]
  exact known rest

theorem integer {v : Rvalue} {g : (width : Nat) × BitVec width → Evaluation M δ} {l : Codegen γ}
    (rest : ∀ width x, v = .ofBits x → Simulates platform c n r l (g ⟨width, x⟩) R) :
    Simulates platform c n r l (Low.known v.int? >>= g) R := by
  apply known
  intro number is
  exact rest number.1 number.2 (Rvalue.int?_eq.mp is)

theorem pointsTo {v : Rvalue} {g : Lvalue → Evaluation M δ} {l : Codegen γ}
    (rest : ∀ place, v = place.address → Simulates platform c n r l (g place) R) :
    Simulates platform c n r l (Low.known v.pointee >>= g) R := by
  apply known
  intro place is
  exact rest place (Rvalue.pointee_eq.mp is)

theorem guard {b : Prop} [Decidable b] {error : CodegenError} {l : γ → Codegen α}
    (rest : ¬b → Simulates platform c n r m e Q) :
    Simulates platform c n r (if b then (MonadExcept.throw error : Codegen γ) >>= l else m) e Q := by
  split
  case isTrue => exact throw_bind error
  case isFalse passed => exact rest passed

theorem noLvalue {lvalue : Bool} {message : String} {l : Unit → Codegen γ} {g : Evaluation M δ}
    (rest : lvalue = false → Simulates platform c n r (l ()) g R) :
    Simulates platform c n r (Low.noLvalue lvalue message >>= l) g R := by
  cases lvalue with
  | true => exact throw_bind _
  | false => exact rest rfl

theorem present {a? : Option α} {g : Evaluation M δ} (rest : ∀ a, a? = some a → Simulates platform c n r (k a) g R) :
    Simulates platform c n r (Low.present a? >>= k) g R := by
  cases a? with
  | none => exact throw_bind _
  | some a => exact rest a rfl

theorem get {k : Building → Codegen γ} {g : Evaluation M δ}
    (rest : ∀ s, s.context = c → Simulates platform c n r (k s) g R) :
    Simulates platform c n r (MonadState.get >>= k) g R := by
  refine still (P := fun s => s.context = c) (fun s a s' same run => ?_) rest
  cases run
  exact ⟨rfl, same⟩

/-! ### Instructions -/

theorem build {op : Op} (plain : ∀ type incoming, op ≠ .phi type incoming)
    {Q : Nat → (Nat → Option Datum) → Llvm.Value → β → Prop}
    (step : ∀ x w b w', Kept n r x.registers → w.At x → e w = some (b, w') →
      ∃ effect, op.effect platform x = some effect ∧ effect.memory = w'.memory ∧ effect.objects = w'.objects ∧
        w'.events = w.events ++ effect.events ∧
        ∀ n', n ≤ n' → Q (n' + 1) (Function.update x.registers n' effect.result) (.result n' op.type) b) :
    Simulates platform c n r (Low.build op) e Q := by
  intro s a s' x w b w' sound same known here kept atWorld built done
  obtain ⟨effect, executed, memory, objects, events, holds⟩ := step x w b w' kept atWorld done
  obtain ⟨rfl, rfl⟩ : .result s.results op.type = a ∧ s.push (.op op) = s' := Prod.mk.inj (Except.ok.inj built)
  have run : Llvm.executeAll platform (numberedFrom s.results [op]) x =
      some (effect.events ++ [], x.after s.results effect) := Llvm.executeAll_cons executed rfl
  obtain ⟨reached, there⟩ := here.all sound (.refl (s.pushAll [op])) run
  have region : Region s (s.push (.op op)) := (Region.refl sound).op fun type incoming same => absurd same (plain type incoming)
  refine ⟨region, same, _, ⟨⟨_, reached, ?_⟩, there, ⟨memory, objects⟩, .update _ _ _⟩, holds _ known⟩
  rw [events, List.append_nil]

/-- An instruction that the evaluation has no step for. -/
theorem computes {op : Op} {v : Rvalue} (plain : ∀ type incoming, op ≠ .phi type incoming) (yields : Yields platform n r op v)
    {k : Llvm.Value → Codegen γ} {g : Evaluation M δ}
    (rest : ∀ value n' r', n ≤ n' → Kept n r r' → Stands platform n' r' value v → Simulates platform c n' r' (k value) g R) :
    Simulates platform c n r (Low.build op >>= k) g R := by
  have first : Simulates platform c n r (Low.build op) (Pure.pure ()) fun n r value _ => Stands platform n r value v := by
    refine build plain fun x w b w' kept atWorld done => ?_
    cases done
    refine ⟨_, yields.effect x kept, atWorld.1, atWorld.2, (List.append_nil _).symm, fun n' le => ?_⟩
    exact ⟨Nat.lt_succ_self _, yields.type, Function.update_self _ _ _⟩
  rw [← pure_bind () fun _ => g]
  exact first.bind fun value _ n' r' le kept stands => rest value n' r' le kept stands

theorem yields {op : Op} {v : Rvalue} (plain : ∀ type incoming, op ≠ .phi type incoming) (yields : Yields platform n r op v) :
    Simulates platform c n r (Low.build op) (Pure.pure v) (Stands platform) := by
  rw [← bind_pure (Low.build op)]
  exact computes plain yields fun value n' r' le kept stands => pure fun _ _ le' kept' => stands.kept kept' le'

/-- What is loaded has the type of the place, and can be called. -/
theorem loads {ptr : Llvm.Value} {place : Lvalue} (stands : Stands platform n r ptr place.address) :
    Simulates platform c n r (Low.build (.load ptr)) (readPlace platform place)
      fun n r value v => Stands platform n r value v ∧ v.type = place.type ∧ value ≠ .trap := by
  refine build (by simp) fun x w b w' kept atWorld done => ?_
  obtain ⟨d, loaded, same⟩ := Option.map_eq_some_iff.mp done
  cases same
  have typed : ptr.type = .ptr place.type := stands.type
  rw [← atWorld.1] at loaded
  refine ⟨_, Llvm.effect_load typed (stands.fetched kept) loaded, atWorld.1, atWorld.2,
    (List.append_nil _).symm, fun n' le => ⟨?_, rfl, nofun⟩⟩
  exact ⟨Nat.lt_succ_self _, Op.type_load typed, Function.update_self _ _ _⟩

theorem load {ptr : Llvm.Value} {place : Lvalue} (stands : Stands platform n r ptr place.address) :
    Simulates platform c n r (Low.build (.load ptr)) (readPlace platform place) (Stands platform) :=
  (loads stands).imp fun _ _ _ _ holds => holds.1

theorem store {value ptr : Llvm.Value} {v : Rvalue} {place : Lvalue} (stored : Stands platform n r value v)
    (stands : Stands platform n r ptr place.address) :
    Simulates platform c n r (Low.build (.store value ptr)) (writePlace platform place v.datum) fun _ _ _ _ => True := by
  refine build (by simp) fun x w b w' kept atWorld done => ?_
  cases done
  have written := Llvm.effect_store (stored.fetched kept) (stands.fetched kept)
  exact ⟨_, written, congrArg (platform.store · place.pointer v.datum) atWorld.1, atWorld.2, rfl, fun _ _ => trivial⟩

theorem alloca (type : Ty) : Simulates platform c n r (Low.build (.alloca type)) (allocatePlace type fun _ => [])
    fun n r value place => Stands platform n r value place.address ∧ place.type = type := by
  refine build (by simp) fun x w b w' kept atWorld done => ?_
  cases done
  refine ⟨_, rfl, atWorld.1, congrArg (· + 1) atWorld.2, rfl, fun n' le => ⟨⟨Nat.lt_succ_self _, rfl, ?_⟩, rfl⟩⟩
  rw [Llvm.fetch_result, Function.update_self, ← atWorld.2]
  rfl

theorem malloc (type : Ty) :
    Simulates platform c n r (Low.build (.malloc type)) (allocatePlace type fun pointer => [.allocated pointer type 1])
      fun n r value place => Stands platform n r value place.address ∧ place.type = type := by
  refine build (by simp) fun x w b w' kept atWorld done => ?_
  cases done
  refine ⟨_, rfl, atWorld.1, congrArg (· + 1) atWorld.2, ?_, fun n' le => ⟨⟨Nat.lt_succ_self _, rfl, ?_⟩, rfl⟩⟩
  · rw [← atWorld.2]
    rfl
  · rw [Llvm.fetch_result, Function.update_self, ← atWorld.2]
    rfl

theorem free {ptr : Llvm.Value} {place : Lvalue} (stands : Stands platform n r ptr place.address) :
    Simulates platform c n r (Low.build (.free ptr)) (freePlace place) fun _ _ _ _ => True := by
  refine build (by simp) fun x w b w' kept atWorld done => ?_
  cases done
  exact ⟨_, Llvm.effect_free (stands.fetched kept), atWorld.1, atWorld.2, rfl, fun _ _ => trivial⟩

theorem call {callee : Llvm.Value} {function : Rvalue} {values : List Llvm.Value} {args : List Rvalue}
    (stands : Stands platform n r callee function) (other : callee ≠ .trap) (all : List.Forall₂ (Stands platform n r) values args) :
    Simulates platform c n r (Low.build (.call callee values)) (applyFunction platform function args) (Stands platform) := by
  refine build (by simp) fun x w b w' kept atWorld done => ?_
  unfold applyFunction at done
  split at done
  case h_2 => cases done
  case h_1 result params variadic typed =>
    obtain ⟨⟨d, memory, objects⟩, called, same⟩ := Option.map_eq_some_iff.mp done
    cases same
    have fetched : values.mapM (Llvm.Value.fetch platform x.registers) = some (args.map Rvalue.datum) := by
      clear called done
      induction all with
      | nil => rfl
      | cons first _ ih =>
        rw [List.mapM_cons, first.fetched kept, ih]
        rfl
    refine ⟨⟨some d, memory, objects, []⟩, ?_, rfl, rfl, (List.append_nil _).symm, fun n' le => ?_⟩
    · rw [Op.effect]
      · rw [fetched, stands.fetched kept]
        simp only [Option.bind_eq_bind, Option.bind_some, Option.pure_def]
        rw [atWorld.1, atWorld.2, called]
        rfl
      · exact fun same => other same
    · refine ⟨Nat.lt_succ_self _, ?_, Function.update_self _ _ _⟩
      simp [Op.type, stands.type.trans typed]

end Simulates

end Low
