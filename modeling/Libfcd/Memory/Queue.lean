import Mathlib.Data.List.Basic

namespace Libfcd.Memory

/-- How an entry left a queue: it was handed out, it made room for a newer one
when so many were behind it, or it went with the queue itself. -/
inductive Fate where
  | taken
  | displaced (behind : Nat)
  | discarded
  deriving DecidableEq, Repr

/-- A queue with its past: what came to it and what went from it, in order. -/
structure History (α : Type) where
  came : List α
  went : List (α × Fate)
  queue : List α
  deriving DecidableEq, Repr

namespace History

variable {α : Type} {l : History α} {cap : Nat}

def empty : History α := ⟨[], [], []⟩

/-- A new entry goes to the end. With more than `cap` of them the first has to go. -/
def push (cap : Nat) (l : History α) (x : α) : History α :=
  if l.queue.length < cap then
    { l with came := l.came ++ [x], queue := l.queue ++ [x] }
  else
    { came := l.came ++ [x]
      went := l.went ++ ((l.queue ++ [x]).take 1).map (·, .displaced l.queue.length)
      queue := (l.queue ++ [x]).drop 1 }

/-- The first entry is handed out. -/
def take (l : History α) : History α :=
  { l with went := l.went ++ (l.queue.take 1).map (·, .taken), queue := l.queue.drop 1 }

/-- The queue is given up. -/
def discard (l : History α) : History α :=
  { l with went := l.went ++ l.queue.map (·, .discarded), queue := [] }

/-- What left in this way, in order. -/
def gone (l : History α) (f : Fate) : List α := (l.went.filter (·.2 = f)).map Prod.fst

/-- Entries that leave in another way. -/
theorem gone_of_ne {f f' : Fate} (hf : f' ≠ f) (came queue xs : List α) (went : List (α × Fate)) :
    gone ⟨came, went ++ xs.map (·, f'), queue⟩ f = gone ⟨came, went, queue⟩ f := by
  have hnone : (xs.map (·, f')).filter (·.2 = f) = [] := by
    simp [List.filter_eq_nil_iff, hf]
  rw [gone, List.filter_append, hnone, List.append_nil]
  rfl

theorem gone_push {f : Fate} (hf : ∀ n, f ≠ .displaced n) (cap : Nat) (l : History α) (x : α) :
    (l.push cap x).gone f = l.gone f := by
  unfold push
  split
  · rfl
  · exact gone_of_ne (hf _).symm _ _ _ _

theorem gone_discard {f : Fate} (hf : f ≠ .discarded) (l : History α) :
    l.discard.gone f = l.gone f :=
  gone_of_ne hf.symm _ _ _ _

theorem gone_take {f : Fate} (hf : f ≠ .taken) (l : History α) : l.take.gone f = l.gone f :=
  gone_of_ne hf.symm _ _ _ _

theorem gone_taken {x : α} {rest : List α} (hq : l.queue = x :: rest) :
    l.take.gone .taken = l.gone .taken ++ [x] := by
  simp [gone, take, hq, List.filter_append]

/-- Nothing is lost, doubled or put in another place, and an entry made room
only when as many as fit were behind it. -/
structure Sound (cap : Nat) (l : History α) : Prop where
  conserved : l.came = l.went.map Prod.fst ++ l.queue
  room : l.queue.length ≤ cap
  displaced : ∀ i x n, l.went[i]? = some (x, .displaced n) → cap ≤ n ∧ i + n < l.came.length

namespace Sound

theorem empty (cap : Nat) : Sound cap (.empty : History α) :=
  ⟨rfl, Nat.zero_le _, by simp [History.empty]⟩

/-- More has come than went, by what is still there. -/
theorem length_came (h : Sound cap l) : l.came.length = l.went.length + l.queue.length := by
  simpa using congrArg List.length h.conserved

theorem push (h : Sound cap l) (x : α) : Sound cap (l.push cap x) := by
  have hlen := h.length_came
  have hroom := h.room
  by_cases hfits : l.queue.length < cap
  · rw [History.push, if_pos hfits]
    refine ⟨by simp [h.conserved], by simpa [Nat.succ_le_iff] using hfits, ?_⟩
    intro i y n hy
    have := h.displaced i y n hy
    simp only [List.length_append]
    omega
  · rw [History.push, if_neg hfits]
    refine ⟨?_, ?_, ?_⟩
    · simp only [List.map_append, List.map_map, Function.comp_def, List.map_id', List.append_assoc,
        List.take_append_drop]
      rw [h.conserved, List.append_assoc]
    · simp only [List.length_drop, List.length_append, List.length_singleton]
      omega
    · intro i y n hy
      simp only [List.length_append, List.length_singleton]
      by_cases hi : i < l.went.length
      · rw [List.getElem?_append_left hi] at hy
        have := h.displaced i y n hy
        omega
      · -- it is the one that goes now, behind all those that went before
        rw [List.getElem?_append_right (by omega)] at hy
        have hbound := (List.getElem?_eq_some_iff.mp hy).1
        obtain ⟨z, -, hz⟩ := List.mem_map.mp (List.mem_of_getElem? hy)
        obtain rfl := Fate.displaced.inj (Prod.mk.inj hz).2
        simp only [List.length_map, List.length_take, List.length_append,
          List.length_singleton] at hbound
        omega

/-- Entries that leave from the front for another reason. -/
theorem leave (h : Sound cap l) {xs rest : List α} {f : Fate} (hf : ∀ n, f ≠ .displaced n)
    (hq : l.queue = xs ++ rest) :
    Sound cap { l with went := l.went ++ xs.map (·, f), queue := rest } := by
  refine ⟨?_, ?_, ?_⟩
  · simp [h.conserved, hq, Function.comp_def]
  · have := h.room
    rw [hq, List.length_append] at this
    exact Nat.le_trans (Nat.le_add_left _ _) this
  · intro i y n hy
    by_cases hi : i < l.went.length
    · rw [List.getElem?_append_left hi] at hy
      exact h.displaced i y n hy
    · rw [List.getElem?_append_right (by omega)] at hy
      have hmem := List.mem_of_getElem? hy
      obtain ⟨z, -, hz⟩ := List.mem_map.mp hmem
      exact absurd (Prod.mk.inj hz).2 (hf n)

theorem take (h : Sound cap l) : Sound cap l.take :=
  h.leave (by simp) (List.take_append_drop 1 l.queue).symm

theorem discard (h : Sound cap l) : Sound cap l.discard :=
  h.leave (by simp) (List.append_nil l.queue).symm

end Sound

end History

end Libfcd.Memory
