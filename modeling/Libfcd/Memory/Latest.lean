namespace Libfcd.Memory

variable {α β : Type}

/-- What a variable was last set to. `set` gives the value that a step stores in
it, if it stores one. -/
def latest (set : α → Option β) (xs : List α) : Option β := (xs.filterMap set).getLast?

@[simp] theorem latest_nil (set : α → Option β) : latest set [] = none := rfl

/-- A variable that is stepped over a list: the first step may set it, the
others have the last word. -/
theorem latest_cons (set : α → Option β) (x : α) (xs : List α) :
    latest set (x :: xs) = (latest set xs).or (set x) := by
  cases h : set x with
  | none => simp [latest, h]
  | some v =>
    rw [latest, List.filterMap_cons, h, List.getLast?_cons]
    cases hr : latest set xs with
    | none =>
      rw [latest] at hr
      simp [hr]
    | some w =>
      rw [latest] at hr
      simp [hr]

/-- The same with the value from before the first step. -/
theorem getD_latest_cons (set : α → Option β) (x : α) (xs : List α) (v : β) :
    (latest set (x :: xs)).getD v = (latest set xs).getD ((set x).getD v) := by
  rw [latest_cons]
  cases latest set xs <;> simp

theorem or_latest_cons (set : α → Option β) (x : α) (xs : List α) (o : Option β) :
    (latest set (x :: xs)).or o = (latest set xs).or ((set x).or o) := by
  rw [latest_cons, Option.or_assoc]

end Libfcd.Memory
