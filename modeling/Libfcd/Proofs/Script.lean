import Libfcd.Proofs.Commands

namespace Libfcd.Proofs
open Interaction Memory Model

variable {σ γ : Type}

/-- A request together with the exchange that was made of it. -/
structure Transaction where
  request : Request
  exchange : Exchange
  deriving DecidableEq, Repr

namespace Transaction

def events (t : Transaction) : List Happening := t.exchange.events t.request

/-- `fcd_io` returned 0 for it. -/
def succeeded (t : Transaction) : Bool := (t.exchange.outcome t.request).toBool

/-- Its report was handed to `hid_write`. -/
def sent (t : Transaction) : Bool := t.exchange != .notOpened

end Transaction

/-- The reports handed to `hid_write`, in order. -/
def reports (es : List Happening) : List Bytes :=
  es.filterMap fun
    | ⟨.hidWrite _ data, _⟩ => some data
    | _ => none

@[simp] theorem reports_append (xs ys : List Happening) :
    reports (xs ++ ys) = reports xs ++ reports ys := by
  simp [reports]

theorem Transaction.reports_events (t : Transaction) :
    reports t.events = if t.sent then [t.request.report] else [] := by
  obtain ⟨q, x⟩ := t
  cases x <;> rfl

/-- On the wire are the reports of those transactions whose device opened. -/
theorem reports_transactions (ts : List Transaction) :
    reports (ts.flatMap Transaction.events) =
      (ts.filter Transaction.sent).map (fun t => t.request.report) := by
  induction ts with
  | nil => rfl
  | cons t ts ih =>
    rw [List.flatMap_cons, reports_append, ih, Transaction.reports_events, List.filter_cons]
    split <;> simp

theorem Transaction.sent_of_succeeded {t : Transaction} (h : t.succeeded = true) :
    t.sent = true := by
  obtain ⟨q, x⟩ := t
  cases x with
  | notOpened => cases h
  | notWritten dev count => rfl
  | answered dev count received => rfl

theorem succeeded_iff {q : Request} {x : Exchange} :
    (⟨q, x⟩ : Transaction).succeeded = true ↔ ∃ bytes, x.outcome q = .ok bytes := by
  simp only [Transaction.succeeded]
  cases x.outcome q <;> simp [Except.toBool]

theorem failed_iff {q : Request} {x : Exchange} :
    (⟨q, x⟩ : Transaction).succeeded = false ↔ ∃ e, x.outcome q = .error e := by
  simp only [Transaction.succeeded]
  cases x.outcome q <;> simp [Except.toBool]

theorem status_of_succeeded {q : Request} {x : Exchange}
    (h : (⟨q, x⟩ : Transaction).succeeded = true) : x.status q = .ok () := by
  obtain ⟨bytes, ho⟩ := succeeded_iff.mp h
  simp [Exchange.status, ho, Except.map]

theorem status_of_failed {q : Request} {x : Exchange}
    (h : (⟨q, x⟩ : Transaction).succeeded = false) : ∃ e, x.status q = .error e := by
  obtain ⟨e, ho⟩ := failed_iff.mp h
  exact ⟨e, by simp [Exchange.status, ho, Except.map]⟩

/-- `ts` makes the requests in order and ends with the first that fails. -/
def UntilFailure : List Request → List Transaction → Prop
  | [], ts => ts = []
  | q :: qs, ts => ∃ t rest, ts = t :: rest ∧ t.request = q ∧
      if t.succeeded then UntilFailure qs rest else rest = []

/-- What a host makes of requests that are given up at the first failure. -/
def perform (h : Host σ) : List Request → σ → List Transaction × σ
  | [], s => ([], s)
  | q :: qs, s =>
    let x := converse h q s
    let t : Transaction := ⟨q, x.1⟩
    if t.succeeded then (t :: (perform h qs x.2).1, (perform h qs x.2).2) else ([t], x.2)

theorem perform_of_succeeded {h : Host σ} {q : Request} {s : σ}
    (hq : (⟨q, (converse h q s).1⟩ : Transaction).succeeded = true) (qs : List Request) :
    perform h (q :: qs) s = (⟨q, (converse h q s).1⟩ :: (perform h qs (converse h q s).2).1,
      (perform h qs (converse h q s).2).2) := if_pos hq

theorem perform_of_failed {h : Host σ} {q : Request} {s : σ}
    (hq : (⟨q, (converse h q s).1⟩ : Transaction).succeeded = false) (qs : List Request) :
    perform h (q :: qs) s = ([⟨q, (converse h q s).1⟩], (converse h q s).2) :=
  if_neg (Bool.eq_false_iff.mp hq)

/-- The first request is always made. -/
theorem perform_cons (h : Host σ) (q : Request) (qs : List Request) (s : σ) :
    ∃ rest, (perform h (q :: qs) s).1 = ⟨q, (converse h q s).1⟩ :: rest := by
  rw [perform]
  split <;> simp

theorem perform_untilFailure (h : Host σ) (qs : List Request) (s : σ) :
    UntilFailure qs (perform h qs s).1 := by
  induction qs generalizing s with
  | nil => rfl
  | cons q qs ih =>
    by_cases hx : (⟨q, (converse h q s).1⟩ : Transaction).succeeded = true
    · rw [perform_of_succeeded hx]
      exact ⟨_, _, rfl, rfl, by simpa [hx] using ih _⟩
    · rw [perform_of_failed (Bool.eq_false_iff.mpr hx)]
      exact ⟨_, _, rfl, rfl, by simp [hx]⟩

/-- The requests made are the first ones of those to make. -/
theorem UntilFailure.isPrefix {qs : List Request} {ts : List Transaction}
    (h : UntilFailure qs ts) : ts.map Transaction.request <+: qs := by
  induction qs generalizing ts with
  | nil =>
    obtain rfl : ts = [] := h
    simp
  | cons q qs ih =>
    obtain ⟨t, rest, rfl, rfl, hr⟩ := h
    split at hr
    · simpa using ih hr
    · simp [hr]

/-- Only the last transaction may have failed. -/
theorem UntilFailure.countP {qs : List Request} {ts : List Transaction}
    (h : UntilFailure qs ts) :
    if ts.all Transaction.succeeded then ts.countP Transaction.succeeded = qs.length
    else ts.length = ts.countP Transaction.succeeded + 1 ∧
      ts.countP Transaction.succeeded < qs.length := by
  induction qs generalizing ts with
  | nil =>
    obtain rfl : ts = [] := h
    simp
  | cons q qs ih =>
    obtain ⟨t, rest, rfl, rfl, hr⟩ := h
    cases ht : t.succeeded with
    | true =>
      rw [if_pos ht] at hr
      have := ih hr
      simp only [List.all_cons, ht, Bool.true_and, List.countP_cons, if_true, List.length_cons,
        Nat.add_lt_add_iff_right, Nat.add_right_cancel_iff]
      exact this
    | false =>
      obtain rfl : rest = [] := by simpa [ht] using hr
      simp [ht]

theorem UntilFailure.requests {qs : List Request} {ts : List Transaction}
    (h : UntilFailure qs ts) (hall : ∀ t ∈ ts, t.succeeded = true) :
    ts.map Transaction.request = qs := by
  induction qs generalizing ts with
  | nil =>
    obtain rfl : ts = [] := h
    simp
  | cons q qs ih =>
    obtain ⟨t, rest, rfl, rfl, hr⟩ := h
    rw [if_pos (hall t (by simp))] at hr
    rw [List.map_cons, ih hr (fun u hu => hall u (by simp [hu]))]

/-- A loop whose rounds each make one request, and leave with `c` if it fails,
performs those requests. -/
theorem scan_perform {β : Type} {h : Host σ} {body : β → Hid (Option γ)} {req : β → Request}
    {c : γ} {bs : List β}
    (hbody : ∀ b ∈ bs, ∀ s, Program.Runs h (body b) s
      (if (⟨req b, (converse h (req b) s).1⟩ : Transaction).succeeded then none else some c)
      (converse h (req b) s).2 ((converse h (req b) s).1.events (req b))) (s : σ) :
    Program.Runs h (Program.scan body bs) s
      (if (perform h (bs.map req) s).1.all Transaction.succeeded then none else some c)
      (perform h (bs.map req) s).2
      ((perform h (bs.map req) s).1.flatMap Transaction.events) := by
  induction bs generalizing s with
  | nil => exact Program.Runs.done h none s
  | cons b bs ih =>
    have hb := hbody b (by simp) s
    by_cases hx : (⟨req b, (converse h (req b) s).1⟩ : Transaction).succeeded = true
    · simp only [hx, if_true] at hb
      have hrest := ih (fun b hb => hbody b (by simp [hb])) (converse h (req b) s).2
      simp only [List.map_cons, perform_of_succeeded hx, hx, List.all_cons, Bool.true_and,
        List.flatMap_cons]
      exact hb.scan_next hrest
    · replace hx := Bool.eq_false_iff.mpr hx
      simp only [hx, Bool.false_eq_true, if_false] at hb
      simp only [List.map_cons, perform_of_failed hx, hx, Bool.false_eq_true, if_false,
        List.all_cons, Bool.false_and, List.flatMap_cons, List.flatMap_nil, List.append_nil]
      exact hb.scan_leave _

end Libfcd.Proofs
