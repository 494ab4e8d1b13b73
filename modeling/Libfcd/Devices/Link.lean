import Libfcd.Proofs.Script

namespace Libfcd.Devices
open Interaction Memory Model Proofs

variable {σ D : Type}

/-- What a device makes of a report: data for a response with status 1, or none
for a response that refuses, and its state afterwards. -/
abbrev Serve (D : Type) := Bytes → D → Option Bytes × D

/-- A host with one device behind it, whose state is `view s`. The device moves
only when a report is written, and then at most once; an exchange may fail
whether it moved or not, but one that succeeds carries its own response. -/
structure Attached (serve : Serve D) (h : Host σ) (view : σ → D) : Prop where
  still : ∀ c s, (∀ dev report, c ≠ .hidWrite dev report) → view (h c s).2 = view s
  acts : ∀ dev report s, view (writing h dev report s).2 = view s ∨
    view (writing h dev report s).2 = (serve report (view s)).2
  honest : ∀ q s bytes, (converse h q s).1.outcome q = .ok bytes →
    view (converse h q s).2 = (serve q.report (view s)).2 ∧
      ∃ data, (serve q.report (view s)).1 = some data ∧ bytes = data.takeD (q.want - 2) 0

/-- The device after it served requests in order. -/
def serveAll (serve : Serve D) (qs : List Request) (d : D) : D :=
  qs.foldl (fun d q => (serve q.report d).2) d

namespace Attached

variable {serve : Serve D} {h : Host σ} {view : σ → D}

/-- The device has served the request of an exchange or has not moved. -/
theorem converse (a : Attached serve h view) (q : Request) (s : σ) :
    view (converse h q s).2 = view s ∨ view (converse h q s).2 = (serve q.report (view s)).2 := by
  have hopen := a.still (.hidOpenPath q.path) s (by simp)
  change view (opening h q.path s).2 = view s at hopen
  unfold Proofs.converse
  rcases hop : opening h q.path s with ⟨_ | dev, s1⟩
  · exact .inl (by simpa [hop] using hopen)
  · rcases hw : writing h dev q.report s1 with ⟨count, s2⟩
    have hs1 : view s1 = view s := by simpa [hop] using hopen
    have hacts := a.acts dev q.report s1
    rw [hw, hs1] at hacts
    have hclose : ∀ s, view (closing h dev s) = view s :=
      fun s => a.still (.hidClose (some dev)) s (by simp)
    have hread : view (reading h dev q.want s2).2 = view s2 :=
      a.still (.hidRead dev q.want) s2 (by simp)
    simp only [hw]
    split
    · simpa only [hclose, hread] using hacts
    · simpa only [hclose] using hacts

/-- Nothing was written to a device that did not open. -/
theorem unopened (a : Attached serve h view) {q : Request} {s : σ}
    (hx : (Proofs.converse h q s).1 = .notOpened) : view (Proofs.converse h q s).2 = view s := by
  have hopen : view (opening h q.path s).2 = view s := a.still (.hidOpenPath q.path) s (by simp)
  unfold Proofs.converse at hx ⊢
  rcases hop : opening h q.path s with ⟨_ | dev, s1⟩
  · simpa [hop] using hopen
  · simp only [hop] at hx
    split at hx <;> cases hx

/-- What every report leaves true of the device is true of it after a call. -/
theorem call_keeps (a : Attached serve h view) {P : D → Prop}
    (hP : ∀ report d, P d → P (serve report d).2) (c : Call) {s : σ} (hs : P (view s)) :
    P (view (h c s).2) := by
  cases c with
  | hidWrite dev report =>
    change P (view (writing h dev report s).2)
    rcases a.acts dev report s with hv | hv
    · rwa [hv]
    · rw [hv]
      exact hP report _ hs
  | _ => rwa [a.still _ s (by simp)]

/-- A program that sends nothing leaves the device alone. -/
theorem quiet (a : Attached serve h view) {α : Type} {p : Hid α} {s t : σ} {x : α}
    {es : List Happening} (hp : Program.Runs h p s x t es) (hes : reports es = []) :
    view t = view s := by
  obtain ⟨hrun, rfl⟩ := hp
  induction p generalizing s with
  | done y =>
    obtain ⟨-, rfl⟩ := Prod.mk.inj (Option.some.inj hrun)
    rfl
  | call i next ih =>
    rw [Program.events_call] at hes
    have hi : ∀ dev report, i ≠ .hidWrite dev report := by
      rintro dev report rfl
      simp [reports] at hes
    have hnext : reports (Program.events h (next (h i s).1) (h i s).2) = [] := by
      rw [← List.singleton_append, reports_append] at hes
      exact (List.append_eq_nil_iff.mp hes).2
    exact (ih _ hrun hnext).trans (a.still i s hi)
  | wrong => cases hrun

/-- What every report leaves true of the device is true of it after a run. -/
theorem run_keeps (a : Attached serve h view) {P : D → Prop}
    (hP : ∀ report d, P d → P (serve report d).2) {α : Type} {p : Hid α} {s t : σ} {x : α}
    {es : List Happening} (hp : Program.Runs h p s x t es) (hs : P (view s)) : P (view t) := by
  have hrun := hp.run
  clear hp
  induction p generalizing s with
  | done y =>
    obtain ⟨-, rfl⟩ := Prod.mk.inj (Option.some.inj hrun)
    exact hs
  | call i next ih => exact ih _ (a.call_keeps hP i hs) hrun
  | wrong => cases hrun

/-- An exchange that succeeded has been served. -/
theorem view_of_succeeded (a : Attached serve h view) {s : σ} {q : Request}
    (hq : (⟨q, (Proofs.converse h q s).1⟩ : Transaction).succeeded = true) :
    view (Proofs.converse h q s).2 = (serve q.report (view s)).2 := by
  obtain ⟨bytes, ho⟩ := succeeded_iff.mp hq
  exact (a.honest q s bytes ho).1

/-- Performed requests have been served, up to the one that failed: that one
may have been served too, its acknowledgement lost. -/
theorem perform (a : Attached serve h view) (qs : List Request) (s : σ) :
    let p := perform h qs s
    let n := p.1.countP Transaction.succeeded
    view p.2 = serveAll serve (qs.take n) (view s) ∨
      (p.1.all Transaction.succeeded = false ∧
        view p.2 = serveAll serve (qs.take (n + 1)) (view s)) := by
  induction qs generalizing s with
  | nil => exact .inl rfl
  | cons q qs ih =>
    cases hq : (⟨q, (Proofs.converse h q s).1⟩ : Transaction).succeeded with
    | true =>
      have hrest := ih (Proofs.converse h q s).2
      rw [a.view_of_succeeded hq] at hrest
      simpa [perform_of_succeeded hq, hq, serveAll] using hrest
    | false =>
      simp only [perform_of_failed hq, List.countP_cons, List.countP_nil, hq, List.all_cons]
      simpa [serveAll] using a.converse q s

end Attached

/-- A concrete link. Each open, write and read takes the next entry of the fault
list: `none` for no fault, otherwise whether the device acted all the same. -/
structure Link (D : Type) where
  device : D
  response : Bytes
  faults : List (Option Bool)

namespace Link

def next (s : Link D) : Link D := { s with faults := s.faults.tail }

def act (serve : Serve D) (report : Bytes) (s : Link D) : Link D :=
  let (data, device) := serve report s.device
  let response := match data with
    | some data => report.getD 1 0 :: 1 :: data
    | none => [report.getD 1 0, 0]
  { s with device, response }

def host (serve : Serve D) : Host (Link D) := fun c s =>
  match c with
  | .hidOpenPath _ =>
    match s.faults.headD none with
    | none => ((some 0 : Option Handle), s.next)
    | some _ => ((none : Option Handle), s.next)
  | .hidWrite _ report =>
    match s.faults.headD none with
    | none => ((report.length : Int), s.next.act serve report)
    | some true => ((-1 : Int), s.next.act serve report)
    | some false => ((-1 : Int), s.next)
  | .hidRead _ length =>
    match s.faults.headD none with
    | none => ((⟨length, s.response⟩ : Received), s.next)
    | some _ => ((⟨-1, []⟩ : Received), s.next)
  | .malloc _ | .strdup .. => ((some 0 : Option Nat), s)
  | .hidEnumerate .. => ((⟨0, [some "dongle"]⟩ : DeviceList), s)
  | .fopen _ => ((none : Option Nat), s)
  | .fseek .. | .ftell _ => ((-1 : Int), s)
  | .fread .. => (([] : Bytes), s)
  | .free _ | .usleep _ | .hidClose _ | .deviceInfo _ | .hidFreeEnumeration _
  | .print .. | .perror _ | .fclose _ | .mark _ => ((), s)

theorem opening_host (serve : Serve D) (path : String) (s : Link D) :
    opening (host serve) path s =
      (if s.faults.headD none = none then some 0 else none, s.next) := by
  simp only [opening, host]
  cases s.faults.headD none <;> rfl

theorem writing_host (serve : Serve D) (dev : Handle) (report : Bytes) (s : Link D) :
    writing (host serve) dev report s =
      match s.faults.headD none with
      | none => ((report.length : Int), s.next.act serve report)
      | some true => ((-1 : Int), s.next.act serve report)
      | some false => ((-1 : Int), s.next) := rfl

theorem reading_host (serve : Serve D) (dev : Handle) (length : Nat) (s : Link D) :
    reading (host serve) dev length s =
      (if s.faults.headD none = none then ⟨length, s.response⟩ else ⟨-1, []⟩, s.next) := by
  simp only [reading, host]
  cases s.faults.headD none <;> rfl

/-- A response that is accepted was given and carries what the device said. -/
theorem reply_act {serve : Serve D} {q : Request} {s : Link D} {bytes : Bytes}
    (h : reply q ⟨q.want, (act serve q.report s).response⟩ = some bytes) :
    ∃ data, (serve q.report s.device).1 = some data ∧ bytes = data.takeD (q.want - 2) 0 := by
  obtain ⟨path, report, want⟩ := q
  obtain ⟨-, -, hstatus, rfl⟩ := reply_eq_some.mp h
  simp only [act] at hstatus ⊢
  cases hs : (serve report s.device).1 with
  | none =>
    rw [hs] at hstatus
    match want with
    | 0 | 1 | n + 2 => simp [List.takeD] at hstatus
  | some data =>
    rw [hs] at hstatus
    match want with
    | 0 | 1 => simp [List.takeD] at hstatus
    | n + 2 => exact ⟨data, rfl, by simp [List.takeD]⟩

/-- Whatever the faults, the link attaches its device. -/
theorem attached (serve : Serve D) : Attached serve (host serve) device where
  still c s hc := by
    cases c with
    | hidWrite dev report => exact absurd rfl (hc dev report)
    | hidOpenPath path => simp only [host]; split <;> rfl
    | hidRead dev length => simp only [host]; split <;> rfl
    | _ => rfl
  acts dev report s := by
    rw [writing_host]
    split
    · exact .inr rfl
    · exact .inr rfl
    · exact .inl rfl
  honest q s bytes ho := by
    cases hopen : s.faults.headD none with
    | some acted =>
      simp only [converse, opening_host, hopen, reduceCtorEq, if_false, Exchange.outcome] at ho
    | none =>
      cases hwrite : s.next.faults.headD none with
      | some acted =>
        have hneg : ¬ (-1 : Int) ≥ q.report.length := by omega
        cases acted <;>
          simp only [converse, opening_host, hopen, if_true, writing_host, hwrite, if_neg hneg,
            Exchange.outcome, reduceCtorEq] at ho
      | none =>
        have hcount : (q.report.length : Int) ≥ q.report.length := Int.le_refl _
        simp only [converse, opening_host, hopen, if_true, writing_host, hwrite, hcount,
          reading_host] at ho ⊢
        have hrep := Exchange.outcome_answered.mp ho
        split at hrep
        · exact ⟨rfl, reply_act hrep⟩
        · have hcount : (-1 : Int) ≥ q.want := (reply_eq_some.mp hrep).1
          omega

end Link

end Libfcd.Devices
