import Mathlib.Data.List.Basic

/-!
# Blocks of items

A block is a list of cells with bounded reads, writes and moves. Where its length is a
multiple of `k` it is also a list of items of `k` cells, and what is done to it at
multiples of `k` is done to that list.
-/

namespace Blocks

variable {α : Type}

def read (block : List α) (offset count : Nat) : Option (List α) :=
  if offset + count ≤ block.length then some ((block.drop offset).take count) else none

def write (block : List α) (offset : Nat) (cells : List α) : Option (List α) :=
  if offset + cells.length ≤ block.length then
    some (block.take offset ++ cells ++ block.drop (offset + cells.length))
  else none

/-- Source and target may overlap. -/
def move (block : List α) (target source count : Nat) : Option (List α) := do
  let cells ← read block source count
  write block target cells

theorem write_length {block block' cells : List α} {offset : Nat}
    (written : write block offset cells = some block') :
    block'.length = block.length := by
  unfold write at written
  split at written
  · cases written
    simp only [List.length_append, List.length_take, List.length_drop]
    omega
  · cases written

theorem move_length {block block' : List α} {target source count : Nat}
    (moved : move block target source count = some block') : block'.length = block.length := by
  obtain ⟨cells, _, written⟩ := Option.bind_eq_some_iff.mp moved
  exact write_length written

def Uniform (k : Nat) (items : List (List α)) : Prop := ∀ item ∈ items, item.length = k

section Uniform
variable {k : Nat} {items items' : List (List α)}

instance decidableUniform : Decidable (Uniform k items) := inferInstanceAs (Decidable (∀ item ∈ items, item.length = k))

@[simp] theorem uniform_nil : Uniform k ([] : List (List α)) := nofun

@[simp] theorem uniform_cons {item : List α} :
    Uniform k (item :: items) ↔ item.length = k ∧ Uniform k items := by
  simp [Uniform]

@[simp] theorem uniform_append : Uniform k (items ++ items') ↔ Uniform k items ∧ Uniform k items' := by
  simp only [Uniform, List.mem_append]
  exact ⟨fun all => ⟨fun x h => all x (.inl h), fun x h => all x (.inr h)⟩, fun both x h => h.elim (both.1 x) (both.2 x)⟩

theorem Uniform.take (uniform : Uniform k items) (n : Nat) : Uniform k (items.take n) :=
  fun item member => uniform item (List.mem_of_mem_take member)

theorem Uniform.drop (uniform : Uniform k items) (n : Nat) : Uniform k (items.drop n) :=
  fun item member => uniform item (List.mem_of_mem_drop member)

theorem length_flatten (uniform : Uniform k items) : items.flatten.length = items.length * k := by
  induction items with
  | nil => simp
  | cons item items ih =>
    obtain ⟨first, rest⟩ := uniform_cons.mp uniform
    rw [List.flatten_cons, List.length_append, first, ih rest, List.length_cons, Nat.add_mul]
    omega

theorem drop_flatten (uniform : Uniform k items) (n : Nat) :
    items.flatten.drop (n * k) = (items.drop n).flatten := by
  induction items generalizing n with
  | nil => simp
  | cons item items ih =>
    obtain ⟨first, rest⟩ := uniform_cons.mp uniform
    cases n with
    | zero => simp
    | succ n =>
      have past : (n + 1) * k = item.length + n * k := by
        rw [first, Nat.add_mul]
        omega
      rw [List.flatten_cons, past, List.drop_length_add_append, List.drop_succ_cons, ih rest]

theorem take_flatten (uniform : Uniform k items) (n : Nat) :
    items.flatten.take (n * k) = (items.take n).flatten := by
  induction items generalizing n with
  | nil => simp
  | cons item items ih =>
    obtain ⟨first, rest⟩ := uniform_cons.mp uniform
    cases n with
    | zero => simp
    | succ n =>
      have past : (n + 1) * k = item.length + n * k := by
        rw [first, Nat.add_mul]
        omega
      rw [List.flatten_cons, past, List.take_length_add_append, List.take_succ_cons, List.flatten_cons, ih rest]

/-- Any cells are items, when there are enough of them. -/
theorem exists_items (n : Nat) (cells : List α) (length : cells.length = n * k) :
    ∃ items : List (List α), items.length = n ∧ Uniform k items ∧ items.flatten = cells := by
  induction n generalizing cells with
  | zero =>
    have empty : cells = [] := List.length_eq_zero_iff.mp (by omega)
    exact ⟨[], rfl, uniform_nil, empty.symm⟩
  | succ n ih =>
    rw [Nat.add_mul] at length
    obtain ⟨items, count, uniform, same⟩ := ih (cells.drop k) (by rw [List.length_drop]; omega)
    refine ⟨cells.take k :: items, by simp [count], uniform_cons.mpr ⟨by rw [List.length_take]; omega, uniform⟩, ?_⟩
    rw [List.flatten_cons, same, List.take_append_drop]

/-! ### Items in a block -/

theorem read_items (uniform : Uniform k items) {i n : Nat} (inside : i + n ≤ items.length) :
    read items.flatten (i * k) (n * k) = some ((items.drop i).take n).flatten := by
  have bound : i * k + n * k ≤ items.length * k := by
    rw [← Nat.add_mul]
    exact Nat.mul_le_mul_right k inside
  rw [read, if_pos (by rw [length_flatten uniform]; exact bound), drop_flatten uniform, take_flatten (uniform.drop i)]

theorem write_items (uniform : Uniform k items) (uniform' : Uniform k items') {i : Nat}
    (inside : i + items'.length ≤ items.length) :
    write items.flatten (i * k) items'.flatten =
      some (items.take i ++ items' ++ items.drop (i + items'.length)).flatten := by
  have bound : i * k + items'.length * k ≤ items.length * k := by
    rw [← Nat.add_mul]
    exact Nat.mul_le_mul_right k inside
  rw [write, length_flatten uniform, length_flatten uniform', if_pos bound, ← Nat.add_mul, take_flatten uniform,
    drop_flatten uniform, List.flatten_append, List.flatten_append]

theorem move_items (uniform : Uniform k items) {target source n : Nat} (inside : source + n ≤ items.length)
    (inside' : target + n ≤ items.length) :
    move items.flatten (target * k) (source * k) (n * k) =
      some (items.take target ++ (items.drop source).take n ++ items.drop (target + n)).flatten := by
  have count : ((items.drop source).take n).length = n := by
    rw [List.length_take, List.length_drop]
    omega
  have written := write_items (i := target) uniform ((uniform.drop source).take n) (by rw [count]; exact inside')
  rw [count] at written
  rw [move, read_items uniform inside]
  exact written

end Uniform

end Blocks
