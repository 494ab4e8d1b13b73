import Libfcd.Interaction.Program

namespace Libfcd.Memory

abbrev Bytes := List UInt8

/-- One byte of storage, `none` while it has not been written. -/
abbrev Cell := Option UInt8

/-- The contents of one object in memory, or of its part behind a pointer. -/
abbrev Buffer := List Cell

namespace Buffer

/-- An object with no defined contents, such as a local array. -/
def fresh (n : Nat) : Buffer := List.replicate n none

/-- Store cells from `off` on; undefined when they do not all fit. -/
def put (b : Buffer) (off : Nat) (cs : Buffer) : Option Buffer :=
  if off + cs.length ≤ b.length then
    some (b.take off ++ cs ++ b.drop (off + cs.length))
  else none

/-- Load `len` cells from `off` on; undefined when they are not all there. -/
def slice (b : Buffer) (off len : Nat) : Option Buffer :=
  if off + len ≤ b.length then some ((b.drop off).take len) else none

/-- The bytes of cells that have all been written. -/
def written : Buffer → Option Bytes
  | [] => some []
  | none :: _ => none
  | some x :: cs => (written cs).map (x :: ·)

@[simp] theorem length_fresh (n : Nat) : (fresh n).length = n := by simp [fresh]

@[simp] theorem written_map_some (xs : Bytes) : written (xs.map some) = some xs := by
  induction xs with
  | nil => rfl
  | cons x xs ih => simp [written, ih]

theorem put_eq {b cs : Buffer} {off : Nat} (h : off + cs.length ≤ b.length) :
    b.put off cs = some (b.take off ++ cs ++ b.drop (off + cs.length)) := if_pos h

theorem slice_eq {b : Buffer} {off len : Nat} (h : off + len ≤ b.length) :
    b.slice off len = some ((b.drop off).take len) := if_pos h

/-- Filling an object from the front: the next cells go after those written. -/
theorem put_fresh (xs cs : Buffer) {r : Nat} (h : cs.length ≤ r) :
    put (xs ++ fresh r) xs.length cs = some (xs ++ cs ++ fresh (r - cs.length)) := by
  rw [put_eq (by simp; omega)]
  simp [fresh, List.drop_append]

/-- Overwriting an object from its front. -/
theorem put_zero {b cs : Buffer} (h : cs.length ≤ b.length) :
    b.put 0 cs = some (cs ++ b.drop cs.length) := by
  rw [put_eq (by simpa using h)]
  simp

/-- The cells of the C string in an object, those before the first NUL. -/
def text (b : Buffer) : Buffer := b.takeWhile (· ≠ some 0)

theorem text_append_nul (b c : Buffer) : text (b ++ some 0 :: c) = text b := by
  induction b with
  | nil => rfl
  | cons x b ih =>
    by_cases hx : x = some 0
    · simp [text, hx]
    · simpa [text, hx] using ih

theorem text_map_some (xs : Bytes) : text (xs.map some) = (xs.takeWhile (· ≠ 0)).map some := by
  simp [text, List.takeWhile_map, Function.comp_def]

/-- Behind bytes without a NUL the string goes on. -/
theorem text_append_of_not_mem {xs : Bytes} (h : 0 ∉ xs) (c : Buffer) :
    text (xs.map some ++ c) = xs.map some ++ text c := by
  apply List.takeWhile_append_of_pos
  intro x hx
  obtain ⟨y, hy, rfl⟩ := List.mem_map.mp hx
  simp only [ne_eq, Option.some.injEq, decide_eq_true_eq]
  rintro rfl
  exact h hy

/-- With a NUL among the bytes it does not. -/
theorem text_append_of_mem {xs : Bytes} (h : 0 ∈ xs) (c : Buffer) :
    text (xs.map some ++ c) = (xs.takeWhile (· ≠ 0)).map some := by
  obtain ⟨ys, zs, rfl⟩ := List.append_of_mem h
  rw [List.map_append, List.map_cons, List.append_assoc, List.cons_append, text_append_nul,
    ← text_map_some, List.map_append, List.map_cons, text_append_nul]

end Buffer

end Libfcd.Memory
