import Libfcd.Proofs.Threads

namespace Libfcd.Proofs
open Memory Hidapi

/-- `read_thread` has made its broadcast and will wake nobody any more. -/
def gone : Reader → Bool
  | .unlocking | .ended => true
  | _ => false

/-- `read_thread` has left its loop. -/
def finishing : Reader → Bool
  | .testing | .handling => false
  | _ => true

/-- Whoever waits for the condition is awake after it was signalled. -/
theorem wake_ne_asleep (u : User) (res : Wake) (r : Read) : u.wake res ≠ .asleep r := by
  cases u <;> simp [User.wake]

/-- While a user is asleep, libusb calls back from `read_thread` alone. -/
theorem not_gone_of_handles {s : Device} {t : Thread} {r : Read} (ht : s.handles t)
    (hu : s.user = .asleep r) : gone s.reader = false := by
  cases t with
  | user =>
    have : s.user = .writing := ht
    rw [hu] at this
    cases this
  | reader =>
    have : s.reader = .handling ∨ s.reader = .draining := ht
    rcases this with hr | hr <;> rw [hr] <;> rfl
  | callback => cases ht

/-- A user asleep has missed neither a report nor the end of `read_thread`. -/
def Watched (s : Device) : Prop :=
  ∀ r, s.user = .asleep r →
    s.inputReports = [] ∧ (gone s.reader = true → s.shutdownThread = false)

theorem Watched.step {c : Cause} {s t : Device} (hs : Step c s t) (hh : Hosted s)
    (h : Watched s) : Watched t := by
  unfold Watched at h ⊢
  cases hs
  case sleep hq hd => exact fun _ _ => ⟨hq, fun _ => hd⟩
  case broadcast => exact fun r hu => absurd hu (wake_ne_asleep _ _ r)
  case queue rpt list signal hc hq =>
    -- only the first report of all is signalled, and a user asleep waits for it
    intro r hu
    rw [enqueue_eq, Option.some.injEq, Prod.mk.injEq] at hq
    cases signal with
    | true => exact absurd hu (wake_ne_asleep _ _ r)
    | false =>
      have hempty := (h r hu).1
      simp [hempty] at hq
  case stopped t hc hf ht =>
    intro r hu
    refine ⟨(h r hu).1, fun hgone => ?_⟩
    have : gone s.reader = true := hgone
    rw [not_gone_of_handles ht hu] at this
    cases this
  case submitNot hc =>
    intro r hu
    refine ⟨(h r hu).1, fun hgone => ?_⟩
    have : gone s.reader = true := hgone
    rw [not_gone_of_handles (hh (by rw [hc]; decide)) hu] at this
    cases this
  all_goals
    intro r hu
    first
      | exact h r hu
      | simp_all [gone]

/-- Whoever closes the device has put the flag up. -/
def Closing (s : Device) : Prop := s.user = .joining → s.shutdownThread = true

theorem Closing.step {c : Cause} {s t : Device} (hs : Step c s t) (h : Closing s) : Closing t := by
  unfold Closing at h ⊢
  cases hs
  case queue signal _ _ => cases signal <;> simpa using h
  all_goals simp_all

/-- A transfer is under way or a callback is at it, unless the flag is up: so it is
from the first submission on, if that went well. -/
def Running (s : Device) : Prop :=
  s.shutdownThread = false → s.callback = .none → s.inFlight = true

theorem Running.step {c : Cause} {s t : Device} (hs : Step c s t) (h : Running s) : Running t := by
  unfold Running at h ⊢
  cases hs <;> simp_all

theorem Running.reach {allowed : Cause → Prop} {s t : Device} (hr : Reach allowed s t)
    (h : Running s) : Running t := by
  induction hr with
  | refl => exact h
  | tail _ hs ih =>
    obtain ⟨c, -, hs⟩ := hs
    exact ih.step hs

/-- What holds between any two steps of the threads, of their waiting. -/
structure Wakeful (s : Device) : Prop extends Orderly s where
  closing : Closing s
  watched : Watched s

theorem Wakeful.opened (submitted : Bool) : Wakeful (.opened submitted) :=
  ⟨.opened submitted, (fun hu => by cases hu), fun r hu => by cases hu⟩

theorem Wakeful.step {c : Cause} {s t : Device} (hs : Step c s t) (h : Wakeful s) : Wakeful t :=
  ⟨h.toOrderly.step hs, h.closing.step hs, h.watched.step hs h.hosted⟩

theorem Wakeful.reach {allowed : Cause → Prop} {s t : Device} (hr : Reach allowed s t)
    (h : Wakeful s) : Wakeful t := by
  induction hr with
  | refl => exact h
  | tail _ hs ih =>
    obtain ⟨c, -, hs⟩ := hs
    exact ih.step hs

/-! How far the threads are from having nothing to do. -/

def rankUser : User → Nat
  | .locking _ | .woken .. => 5
  | .looking _ | .resumed .. => 4
  | .testing _ => 3
  | .writing | .leaving .. | .joining => 1
  | _ => 0

def rankReader : Reader → Nat
  | .handling => 8
  | .testing => 7
  | .cancelling => 6
  | .draining => 5
  | .waking => 3
  | .broadcasting => 2
  | .unlocking => 1
  | .ended => 0

def rankCallback : Callback → Nat
  | .locking _ => 4
  | .holding _ => 3
  | .unlocking => 2
  | .submitting => 1
  | .none => 0

/-- The rank of the thread of libusb, with what it runs. -/
def rankOthers (s : Device) : Nat := rankReader s.reader + rankCallback s.callback

/-- The next step of the code that is not the user's. -/
structure Onward (s t : Device) : Prop where
  step : Step .code s t
  rank : rankOthers t < rankOthers s
  user : t.user = s.user ∨ t.user = s.user.wake .signalled
  shutdown : s.shutdownThread = true → t.shutdownThread = true

/-- Whoever else has the mutex gives it back. -/
theorem onward_of_locked {s : Device} (hx : Exclusive s) (hu : holdsUser s.user = false)
    (hm : s.mutex ≠ none) : ∃ t, Onward s t := by
  cases hmutex : s.mutex with
  | none => exact absurd hmutex hm
  | some t =>
    cases t with
    | user =>
      rw [hx.user.mp hmutex] at hu
      cases hu
    | reader =>
      have hholds := hx.reader.mp hmutex
      cases hr : s.reader <;> rw [hr] at hholds <;> try cases hholds
      · exact ⟨_, .broadcast hr, by simp [rankOthers, hr, rankReader], .inr rfl, id⟩
      · exact ⟨_, .unlockLast hr, by simp [rankOthers, hr, rankReader], .inl rfl, id⟩
    | callback =>
      have hholds := hx.callback.mp hmutex
      cases hc : s.callback <;> rw [hc] at hholds <;> try cases hholds
      · refine ⟨_, .queue hc (enqueue_eq _ _), by simp [rankOthers, hc, rankCallback], ?_, id⟩
        cases s.inputReports.isEmpty
        · exact .inl rfl
        · exact .inr rfl
      · exact ⟨_, .unlockReport hc, by simp [rankOthers, hc, rankCallback], .inl rfl, id⟩

/-- A callback goes on to its end. -/
theorem onward_of_callback {s : Device} (hx : Exclusive s) (hu : holdsUser s.user = false)
    (hc : s.callback ≠ .none) : ∃ t, Onward s t := by
  by_cases hm : s.mutex = none
  · cases hcb : s.callback with
    | none => exact absurd hcb hc
    | locking rpt =>
      exact ⟨_, .lockReport hcb hm, by simp [rankOthers, hcb, rankCallback], .inl rfl, id⟩
    | holding rpt =>
      have := hx.callback.mpr (by rw [hcb]; rfl)
      rw [hm] at this
      cases this
    | unlocking =>
      have := hx.callback.mpr (by rw [hcb]; rfl)
      rw [hm] at this
      cases this
    | submitting =>
      exact ⟨_, .submit hcb, by simp [rankOthers, hcb, rankCallback], .inl rfl, id⟩
  · exact onward_of_locked hx hu hm

/-- With the flag up, `read_thread` goes on to its end. -/
theorem onward_of_shutdown {s : Device} (hx : Exclusive s) (hu : holdsUser s.user = false)
    (hd : s.shutdownThread = true) (hrank : rankOthers s ≠ 0 ∨ s.mutex ≠ none) :
    ∃ t, Onward s t := by
  by_cases hc : s.callback = .none
  · by_cases hm : s.mutex = none
    · have hrank : rankOthers s ≠ 0 := hrank.resolve_right (fun hne => hne hm)
      cases hr : s.reader with
      | testing => exact ⟨_, .stop hr hd, by simp [rankOthers, hr, rankReader], .inl rfl, id⟩
      | handling =>
        exact ⟨_, .handled hr (.inl hc), by simp [rankOthers, hr, rankReader], .inl rfl, id⟩
      | cancelling => exact ⟨_, .cancelNot hr, by simp [rankOthers, hr, rankReader], .inl rfl, id⟩
      | draining =>
        exact ⟨_, .drained hr (.inl hc), by simp [rankOthers, hr, rankReader], .inl rfl, id⟩
      | waking => exact ⟨_, .lockLast hr hm, by simp [rankOthers, hr, rankReader], .inl rfl, id⟩
      | broadcasting =>
        exact ⟨_, .broadcast hr, by simp [rankOthers, hr, rankReader], .inr rfl, id⟩
      | unlocking => exact ⟨_, .unlockLast hr, by simp [rankOthers, hr, rankReader], .inl rfl, id⟩
      | ended => simp [rankOthers, hr, hc, rankReader, rankCallback] at hrank
    · exact onward_of_locked hx hu hm
  · exact onward_of_callback hx hu hc

/-- A read or write that is under way and does not wait for the condition. -/
def busy : User → Bool
  | .writing | .locking _ | .looking _ | .testing _ | .woken .. | .resumed .. | .leaving .. => true
  | _ => false

theorem wake_of_busy {u : User} (hu : busy u = true) (res : Wake) : u.wake res = u := by
  cases u <;> first | rfl | cases hu

/-- The mutex is free or the user's next, or another thread goes on. -/
theorem onward_or_free {s : Device} (hx : Exclusive s) (hu : holdsUser s.user = false) :
    s.mutex = none ∨ ∃ t, Onward s t := by
  by_cases hm : s.mutex = none
  · exact .inl hm
  · exact .inr (onward_of_locked hx hu hm)

/-- A step towards the end of a read or write: it comes to its end or to a wait, or
it is still busy with less to do. -/
structure Nearer (s t : Device) : Prop where
  step : Step .code s t
  user : busy t.user = true ∨ t.user = .away ∨ ∃ r, t.user = .asleep r
  rank : rankUser t.user + rankOthers t < rankUser s.user + rankOthers s

theorem Nearer.of_onward {s t : Device} (h : Onward s t) (hu : busy s.user = true) :
    Nearer s t := by
  have huser : t.user = s.user := by
    rcases h.user with huser | huser
    · exact huser
    · rw [huser, wake_of_busy hu]
  have := h.rank
  exact ⟨h.step, .inl (by rw [huser]; exact hu), by rw [huser]; omega⟩

theorem exists_nearer {s : Device} (hx : Exclusive s) (hu : busy s.user = true) :
    ∃ t, Nearer s t := by
  cases huser : s.user <;> rw [huser] at hu <;> try cases hu
  case writing =>
    -- a callback may run in this thread, and has to be done first
    by_cases hc : s.callback = .none
    · exact ⟨_, .sent huser (.inl hc), .inr (.inl rfl), by simp [huser, rankUser, rankOthers]⟩
    · obtain ⟨t, ht⟩ := onward_of_callback hx (by rw [huser]; rfl) hc
      exact ⟨t, .of_onward ht (by rw [huser]; rfl)⟩
  case locking r =>
    rcases onward_or_free hx (by rw [huser]; rfl) with hm | ⟨t, ht⟩
    · exact ⟨_, .lock huser hm, .inl rfl, by simp [huser, rankUser, rankOthers]⟩
    · exact ⟨t, .of_onward ht (by rw [huser]; rfl)⟩
  case looking r =>
    cases hq : s.inputReports with
    | cons rpt next =>
      have hd : returnData s.inputReports r.length = some (rpt.take r.length, next) :=
        returnData_eq_some.mpr ⟨rpt, hq, rfl⟩
      exact ⟨_, .first huser hd, .inl rfl, by simp [huser, rankUser, rankOthers]⟩
    | nil =>
      cases hd : s.shutdownThread with
      | true =>
        exact ⟨_, .disconnected huser hq hd, .inl rfl, by simp [huser, rankUser, rankOthers]⟩
      | false =>
        by_cases hms : r.milliseconds = -1 ∨ r.milliseconds > 0
        · exact ⟨_, .wait huser hq hd hms, .inl rfl, by simp [huser, rankUser, rankOthers]⟩
        · exact ⟨_, .poll huser hq hd hms, .inl rfl, by simp [huser, rankUser, rankOthers]⟩
  case testing r =>
    cases hq : s.inputReports with
    | cons rpt next =>
      by_cases hms : r.milliseconds = -1
      · have hd : returnData s.inputReports r.length = some (rpt.take r.length, next) :=
          returnData_eq_some.mpr ⟨rpt, hq, rfl⟩
        exact ⟨_, .took huser hms hd, .inl rfl, by simp [huser, rankUser, rankOthers]⟩
      · exact ⟨_, .gaveUp huser (.inl (by simp [hq])) (fun h => absurd h hms), .inl rfl,
          by simp [huser, rankUser, rankOthers]⟩
    | nil =>
      cases hd : s.shutdownThread with
      | true =>
        exact ⟨_, .gaveUp huser (.inr hd) (fun _ => hq), .inl rfl,
          by simp [huser, rankUser, rankOthers]⟩
      | false =>
        exact ⟨_, .sleep huser hq hd, .inr (.inr ⟨r, rfl⟩), by simp [huser, rankUser, rankOthers]⟩
  case woken r res =>
    rcases onward_or_free hx (by rw [huser]; rfl) with hm | ⟨t, ht⟩
    · by_cases hms : r.milliseconds = -1
      · exact ⟨_, .relock huser hm hms, .inl rfl, by simp [huser, rankUser, rankOthers]⟩
      · exact ⟨_, .resume huser hm hms, .inl rfl, by simp [huser, rankUser, rankOthers]⟩
    · exact ⟨t, .of_onward ht (by rw [huser]; rfl)⟩
  case resumed r res =>
    cases res with
    | signalled =>
      cases hq : s.inputReports with
      | cons rpt next =>
        have hd : returnData s.inputReports r.length = some (rpt.take r.length, next) :=
          returnData_eq_some.mpr ⟨rpt, hq, rfl⟩
        exact ⟨_, .arrived huser hd, .inl rfl, by simp [huser, rankUser, rankOthers]⟩
      | nil => exact ⟨_, .again huser hq, .inl rfl, by simp [huser, rankUser, rankOthers]⟩
    | timedOut => exact ⟨_, .late huser, .inl rfl, by simp [huser, rankUser, rankOthers]⟩
    | failed => exact ⟨_, .failed huser, .inl rfl, by simp [huser, rankUser, rankOthers]⟩
  case leaving r bytesRead data =>
    exact ⟨_, .unlock huser, .inr (.inl rfl), by simp [huser, rankUser, rankOthers]⟩

/-- What the code does by itself. -/
abbrev Finishes : Device → Device → Prop := Reach (· = .code)

theorem Finishes.head {s t u : Device} (hs : Step .code s t) (h : Finishes t u) : Finishes s u :=
  Relation.ReflTransGen.head ⟨.code, rfl, hs⟩ h

/-- A read or write that is under way comes to its end or to a wait. -/
theorem busy_finishes {s : Device} (h : Wakeful s) (hu : busy s.user = true) :
    ∃ t, Finishes s t ∧ (t.user = .away ∨ ∃ r, t.user = .asleep r) := by
  induction hn : rankUser s.user + rankOthers s using Nat.strongRecOn generalizing s with
  | ind n ih =>
    obtain ⟨t, ht⟩ := exists_nearer h.toExclusive hu
    rcases ht.user with hbusy | hend
    · obtain ⟨v, hv, hvend⟩ := ih _ (hn ▸ ht.rank) (h.step ht.step) hbusy rfl
      exact ⟨v, .head ht.step hv, hvend⟩
    · exact ⟨t, .head ht.step .refl, hend⟩

/-- A device that is being closed gets closed. -/
theorem joining_finishes {s : Device} (h : Wakeful s) (hu : s.user = .joining) :
    ∃ t, Finishes s t ∧ t.user = .closed ∧ t.inputReports = [] := by
  induction hn : rankOthers s using Nat.strongRecOn generalizing s with
  | ind n ih =>
    have hd := h.closing hu
    by_cases hdone : rankOthers s ≠ 0 ∨ s.mutex ≠ none
    · obtain ⟨t, ht⟩ := onward_of_shutdown h.toExclusive (by rw [hu]; rfl) hd hdone
      have htu : t.user = .joining := by
        rcases ht.user with huser | huser
        · rw [huser, hu]
        · rw [huser, hu]
          rfl
      obtain ⟨v, hv, hvend⟩ := ih _ (hn ▸ ht.rank) (h.step ht.step) htu rfl
      exact ⟨v, .head ht.step hv, hvend⟩
    · simp only [ne_eq, not_or, not_not] at hdone
      have hended : s.reader = .ended := by
        have := hdone.1
        cases hr : s.reader <;> simp [rankOthers, hr, rankReader] at this ⊢
      exact ⟨_, .head (.join hu hended hdone.2) .refl, rfl, drain_eq _⟩

/-- With the flag up, whoever waits for the condition is woken. -/
theorem asleep_finishes {s : Device} {r : Read} (h : Wakeful s) (hu : s.user = .asleep r)
    (hd : s.shutdownThread = true) :
    ∃ t, Finishes s t ∧ t.user = .woken r .signalled ∧ t.shutdownThread = true := by
  induction hn : rankOthers s using Nat.strongRecOn generalizing s with
  | ind n ih =>
    have hrank : rankOthers s ≠ 0 := by
      intro hzero
      have hr : s.reader = .ended := by
        cases hr : s.reader <;> simp [rankOthers, hr, rankReader] at hzero ⊢
      have := (h.watched r hu).2 (by rw [hr]; rfl)
      rw [hd] at this
      cases this
    obtain ⟨t, ht⟩ := onward_of_shutdown h.toExclusive (by rw [hu]; rfl) hd (.inl hrank)
    rcases ht.user with huser | huser
    · obtain ⟨v, hv, hvend⟩ := ih _ (hn ▸ ht.rank) (h.step ht.step) (huser.trans hu)
        (ht.shutdown hd) rfl
      exact ⟨v, .head ht.step hv, hvend⟩
    · exact ⟨t, .head ht.step .refl, by rw [huser, hu]; rfl, ht.shutdown hd⟩

/-- `read_thread` is past the last events that it handles. -/
def late : Reader → Bool
  | .waking | .broadcasting | .unlocking | .ended => true
  | _ => false

/-- Nothing will come of libusb any more, and nobody has said so: `read_thread` is
past its last events, or no transfer is under way. -/
structure Lost (s : Device) : Prop where
  why : late s.reader = true ∨ s.inFlight = false ∧ s.callback = .none
  shutdown : s.shutdownThread = false

/-- Nothing is left that could end a wait without a limit. -/
structure Stuck (r : Read) (s : Device) : Prop where
  user : s.user = .testing r ∨ s.user = .asleep r ∨ ∃ res, s.user = .woken r res
  block : r.milliseconds = -1
  source : late s.reader = true ∨ s.inFlight = false
  callback : s.callback = .none
  reports : s.inputReports = []
  shutdown : s.shutdownThread = false

/-- Past its last events, `read_thread` runs no callback, nor does a user who
does not write. -/
theorem not_handles_of_late {s : Device} (hu : s.user ≠ .writing) (hl : late s.reader = true)
    (t : Thread) : ¬ s.handles t := by
  intro ht
  cases t with
  | user => exact hu ht
  | reader =>
    have hr : s.reader = .handling ∨ s.reader = .draining := ht
    rcases hr with hr | hr <;> rw [hr] at hl <;> cases hl
  | callback => cases ht

theorem Stuck.step {c : Cause} {s t : Device} {r : Read} (hs : Step c s t) (h : Stuck r s) :
    Stuck r t := by
  obtain ⟨huser, hblock, hsource, hcallback, hreports, hshutdown⟩ := h
  have hquiet : ∀ t, s.inFlight = true → ¬ s.handles t := by
    intro t hflight
    have hreader : late s.reader = true := hsource.resolve_right (by simp [hflight])
    exact not_handles_of_late (by intro hu; simp [hu] at huser) hreader t
  cases hs
  case took hd => simp [hreports, returnData] at hd
  case arrived hd => simp [hreports, returnData] at hd
  case gaveUp hl _ => simp [hreports, hshutdown] at hl
  case broadcast =>
    refine ⟨?_, hblock, .inl rfl, hcallback, hreports, hshutdown⟩
    rcases huser with hu | hu | ⟨res, hu⟩ <;> simp [hu, User.wake]
  case complete t _ hf ht => exact absurd ht (hquiet t hf)
  case stopped t _ hf ht => exact absurd ht (hquiet t hf)
  case idle t _ hf ht => exact absurd ht (hquiet t hf)
  all_goals constructor <;> simp_all [late]

theorem Stuck.reach {allowed : Cause → Prop} {s t : Device} {r : Read} (hr : Reach allowed s t)
    (h : Stuck r s) : Stuck r t := by
  induction hr with
  | refl => exact h
  | tail _ hs ih =>
    obtain ⟨c, -, hs⟩ := hs
    exact ih.step hs

theorem shutdown_stays {c : Cause} {s t : Device} (hs : Step c s t)
    (hd : s.shutdownThread = true) : t.shutdownThread = true := by
  cases hs <;> simp_all

/-- With the flag up, nobody begins to wait. -/
theorem awake_stays {c : Cause} {s t : Device} (hs : Step c s t) (hd : s.shutdownThread = true)
    (hu : ∀ r, s.user ≠ .asleep r) : ∀ r, t.user ≠ .asleep r := by
  cases hs
  case broadcast => exact wake_ne_asleep _ _
  case queue signal _ _ =>
    cases signal with
    | false => exact hu
    | true => exact wake_ne_asleep _ _
  all_goals simp_all

/-- A read or write that is under way returns if the flag is up. -/
theorem busy_returns {s : Device} (h : Wakeful s) (hu : busy s.user = true)
    (hd : s.shutdownThread = true) : ∃ t, Finishes s t ∧ t.user = .away := by
  induction hn : rankUser s.user + rankOthers s using Nat.strongRecOn generalizing s with
  | ind n ih =>
    obtain ⟨t, ht⟩ := exists_nearer h.toExclusive hu
    rcases ht.user with hbusy | haway | ⟨r, hasleep⟩
    · obtain ⟨v, hv, hvend⟩ :=
        ih _ (hn ▸ ht.rank) (h.step ht.step) hbusy (shutdown_stays ht.step hd) rfl
      exact ⟨v, .head ht.step hv, hvend⟩
    · exact ⟨t, .head ht.step .refl, haway⟩
    · have hawake : ∀ r, s.user ≠ .asleep r := by
        intro r hr
        rw [hr] at hu
        cases hu
      exact absurd hasleep (awake_stays ht.step hd hawake r)

theorem asleep_returns {s : Device} {r : Read} (h : Wakeful s) (hu : s.user = .asleep r)
    (hd : s.shutdownThread = true) : ∃ t, Finishes s t ∧ t.user = .away := by
  obtain ⟨t, ht, hwoken, hdt⟩ := asleep_finishes h hu hd
  obtain ⟨v, hv, haway⟩ := busy_returns (h.reach ht) (by rw [hwoken]; rfl) hdt
  exact ⟨v, ht.trans hv, haway⟩

/-- Steps of every cause. -/
abbrev Comes : Device → Device → Prop := Reach (fun _ => True)

theorem Comes.head {c : Cause} {s t u : Device} (hs : Step c s t) (h : Comes t u) : Comes s u :=
  Relation.ReflTransGen.head ⟨c, trivial, hs⟩ h

theorem Finishes.comes {s t : Device} (h : Finishes s t) : Comes s t := by
  induction h with
  | refl => exact .refl
  | tail _ hs ih =>
    obtain ⟨c, -, hs⟩ := hs
    exact ih.tail ⟨c, trivial, hs⟩

/-- The user of a waiting read, woken or not, gets away once the flag is up. -/
theorem waiter_returns {s : Device} {r : Read} (h : Wakeful s)
    (hu : s.user = .asleep r ∨ s.user = .woken r .signalled) (hd : s.shutdownThread = true) :
    ∃ t, Comes s t ∧ t.user = .away := by
  rcases hu with hu | hu
  · obtain ⟨t, ht, haway⟩ := asleep_returns h hu hd
    exact ⟨t, ht.comes, haway⟩
  · obtain ⟨t, ht, haway⟩ := busy_returns h (by rw [hu]; rfl) hd
    exact ⟨t, ht.comes, haway⟩

/-- A callback ends, and may end with the flag up. -/
theorem submitting_returns {s : Device} {r : Read} (h : Wakeful s)
    (hu : s.user = .asleep r ∨ s.user = .woken r .signalled) (hc : s.callback = .submitting) :
    ∃ t, Comes s t ∧ t.user = .away := by
  have hs := Step.submitNot hc
  obtain ⟨t, ht, haway⟩ := waiter_returns (h.step hs) hu rfl
  exact ⟨t, .head hs ht, haway⟩

theorem unlocking_returns {s : Device} {r : Read} (h : Wakeful s)
    (hu : s.user = .asleep r ∨ s.user = .woken r .signalled) (hc : s.callback = .unlocking) :
    ∃ t, Comes s t ∧ t.user = .away := by
  have hs := Step.unlockReport hc
  obtain ⟨t, ht, haway⟩ := submitting_returns (h.step hs) hu rfl
  exact ⟨t, .head hs ht, haway⟩

theorem holding_returns {s : Device} {r : Read} {rpt : InputReport} (h : Wakeful s)
    (hu : s.user = .asleep r) (hc : s.callback = .holding rpt) :
    ∃ t, Comes s t ∧ t.user = .away := by
  have hs := Step.queue hc (enqueue_eq _ _)
  have hwoken : (if s.inputReports.isEmpty then s.user.wake .signalled else s.user) =
      .woken r .signalled := by
    rw [(h.watched r hu).1, hu]
    rfl
  obtain ⟨t, ht, haway⟩ := unlocking_returns (h.step hs) (.inr hwoken) rfl
  exact ⟨t, .head hs ht, haway⟩

/-- `read_thread` in libusb, where a transfer that is under way may come back at any
time. -/
theorem handling_returns {s : Device} {r : Read} (h : Wakeful s) (hu : s.user = .asleep r)
    (hr : s.reader = .handling ∨ s.reader = .draining)
    (hflight : s.callback = .none → s.inFlight = true) :
    ∃ t, Comes s t ∧ t.user = .away := by
  cases hd : s.shutdownThread with
  | true => exact waiter_returns h (.inl hu) hd
  | false =>
    cases hc : s.callback with
    | none =>
      have hs := Step.stopped .reader hc (hflight hc) hr
      obtain ⟨t, ht, haway⟩ := waiter_returns (h.step hs) (.inl hu) rfl
      exact ⟨t, .head hs ht, haway⟩
    | locking rpt =>
      have hm : s.mutex = none := by
        cases hmutex : s.mutex with
        | none => rfl
        | some x =>
          exfalso
          cases x with
          | user => simpa [hu, holdsUser] using h.user.mp hmutex
          | reader => rcases hr with hr | hr <;> simpa [hr, holdsReader] using h.reader.mp hmutex
          | callback => simpa [hc, holdsCallback] using h.callback.mp hmutex
      have hs := Step.lockReport hc hm
      obtain ⟨t, ht, haway⟩ := holding_returns (h.step hs) hu rfl
      exact ⟨t, .head hs ht, haway⟩
    | holding rpt => exact holding_returns h hu hc
    | unlocking => exact unlocking_returns h (.inl hu) hc
    | submitting => exact submitting_returns h (.inl hu) hc

theorem sleeper_returns {s : Device} {r : Read} (h : Wakeful s) (hu : s.user = .asleep r)
    (hlost : ¬ Lost s) : ∃ t, Comes s t ∧ t.user = .away := by
  cases hd : s.shutdownThread with
  | true => exact waiter_returns h (.inl hu) hd
  | false =>
    have hflight : s.callback = .none → s.inFlight = true := by
      intro hc
      by_contra hf
      exact hlost ⟨.inr ⟨by simpa using hf, hc⟩, hd⟩
    cases hr : s.reader with
    | testing =>
      have hs := Step.go hr hd
      obtain ⟨t, ht, haway⟩ := handling_returns (h.step hs) hu (.inl rfl) hflight
      exact ⟨t, .head hs ht, haway⟩
    | cancelling =>
      have hs := Step.cancel hr
      obtain ⟨t, ht, haway⟩ := handling_returns (h.step hs) hu (.inr rfl) hflight
      exact ⟨t, .head hs ht, haway⟩
    | handling => exact handling_returns h hu (.inl hr) hflight
    | draining => exact handling_returns h hu (.inr hr) hflight
    | _ => exact absurd ⟨.inl (by rw [hr]; rfl), hd⟩ hlost

/-- Without a fatal error `read_thread` leaves its loop for the flag alone. -/
theorem finishing_shutdown {allowed : Cause → Prop} {submitted : Bool} {s : Device}
    (hr : Reach allowed (.opened submitted) s) (hfatal : ¬ allowed .fatal) :
    finishing s.reader = true → s.shutdownThread = true := by
  induction hr with
  | refl => exact fun h => by cases h
  | tail _ hs ih =>
    obtain ⟨c, hc, hs⟩ := hs
    cases hs
    case broken => exact absurd hc hfatal
    all_goals simp_all [finishing]

theorem finishing_of_late {r : Reader} (h : late r = true) : finishing r = true := by
  cases r <;> first | rfl | cases h

/-- A first submission that failed is never made up for: no transfer comes back, and
no callback runs. -/
theorem unsubmitted_stays {allowed : Cause → Prop} {s : Device}
    (hr : Reach allowed (.opened false) s) : s.inFlight = false ∧ s.callback = .none := by
  induction hr with
  | refl => exact ⟨rfl, rfl⟩
  | tail _ hs ih =>
    obtain ⟨c, -, hs⟩ := hs
    obtain ⟨hflight, hcallback⟩ := ih
    cases hs <;> simp_all

/-- Then only the user puts the flag up. -/
theorem unsubmitted_shutdown {allowed : Cause → Prop} {s : Device}
    (hr : Reach allowed (.opened false) s) (hd : s.shutdownThread = true) :
    s.user = .joining ∨ s.user = .closed := by
  induction hr with
  | refl => cases hd
  | tail hr hs ih =>
    obtain ⟨c, -, hs⟩ := hs
    obtain ⟨hflight, hcallback⟩ := unsubmitted_stays hr
    cases hs
    case broadcast =>
      rcases ih hd with hu | hu
      · exact .inl (by simp [hu, User.wake])
      · exact .inr (by simp [hu, User.wake])
    all_goals simp_all

/-- A `hid_read` that waits has nothing to read. It can still come back, to a report
or to an error, unless nothing will come of libusb any more and nobody has said so;
then it never does, whatever happens. So it is when `read_thread` stopped without
putting the flag up, which takes a fatal error of libusb, and when the first
submission failed; in the latter case no read that waits comes back. -/
theorem blocked_read_returns {allowed : Cause → Prop} {submitted : Bool} {s : Device}
    (hr : Reach allowed (.opened submitted) s) {r : Read} (hu : s.user = .asleep r)
    (hblock : r.milliseconds = -1) :
    s.inputReports = [] ∧ ((∃ t, Comes s t ∧ t.user = .away) ↔ ¬ Lost s) ∧
    (submitted = false → Lost s) ∧
    (submitted = true → Lost s → late s.reader = true ∧ allowed .fatal) := by
  have h := (Wakeful.opened submitted).reach hr
  refine ⟨(h.watched r hu).1, ⟨?_, sleeper_returns h hu⟩, ?_, ?_⟩
  · rintro ⟨t, ht, haway⟩ hlost
    have hcallback : s.callback = .none := by
      by_contra hc
      have hlate : late s.reader = true := hlost.why.resolve_right (fun hnone => hc hnone.2)
      exact not_handles_of_late (by simp [hu]) hlate _ (h.hosted hc)
    have hstuck : Stuck r s :=
      ⟨.inr (.inl hu), hblock, hlost.why.imp_right (·.1), hcallback, (h.watched r hu).1,
        hlost.shutdown⟩
    have := (hstuck.reach ht).user
    simp [haway] at this
  · rintro rfl
    refine ⟨.inr (unsubmitted_stays hr), Bool.eq_false_iff.mpr (fun hd => ?_)⟩
    rcases unsubmitted_shutdown hr hd with hclosing | hclosed
    · rw [hu] at hclosing
      cases hclosing
    · rw [hu] at hclosed
      cases hclosed
  · rintro rfl hlost
    have hrunning : Running s := Running.reach hr (fun _ _ => rfl)
    have hlate : late s.reader = true := by
      refine hlost.why.resolve_right (fun hnone => ?_)
      have hflight := hrunning hlost.shutdown hnone.2
      rw [hnone.1] at hflight
      cases hflight
    refine ⟨hlate, by_contra fun hfatal => ?_⟩
    have hd := finishing_shutdown hr hfatal (finishing_of_late hlate)
    rw [hlost.shutdown] at hd
    cases hd

/-- After a fatal error the read is woken once, and sleeps for good; after a first
submission that failed it is never woken. Else it may come back. -/
theorem blocked_read_returns_never :
    (∃ s : Device, s.user = .asleep ⟨64, -1⟩ ∧ s.reader = .ended ∧
      ¬ ∃ t, Comes s t ∧ t.user = .away) ∧
    (¬ ∃ t, Comes { Device.opened false with user := .asleep ⟨64, -1⟩ } t ∧ t.user = .away) ∧
    ∃ t, Comes { Device.opened true with user := .asleep ⟨64, -1⟩ } t ∧ t.user = .away := by
  have hasleep : ∀ submitted, Comes (.opened submitted)
      { Device.opened submitted with user := .asleep ⟨64, -1⟩ } :=
    fun submitted => reach_asleep trivial trivial submitted ⟨64, -1⟩ rfl
  have hhandling := (hasleep true).tail ⟨_, trivial, .go rfl rfl⟩
  have hbroken := hhandling.tail ⟨_, trivial, .broken rfl (.inl rfl)⟩
  have hwaking := hbroken.tail ⟨_, trivial, .cancelNot rfl⟩
  have hlocked := hwaking.tail ⟨_, trivial, .lockLast rfl rfl⟩
  have hwoken := hlocked.tail ⟨_, trivial, .broadcast rfl⟩
  have hended := hwoken.tail ⟨_, trivial, .unlockLast rfl⟩
  have htesting := hended.tail ⟨_, trivial, .relock rfl rfl rfl⟩
  have hagain := htesting.tail ⟨_, trivial, .sleep rfl rfl rfl⟩
  have hnever := (blocked_read_returns hagain rfl rfl).2.1.not.mpr (fun h => h ⟨.inl rfl, rfl⟩)
  obtain ⟨-, hreturns, hlost, -⟩ := blocked_read_returns (hasleep false) rfl rfl
  refine ⟨⟨_, rfl, rfl, hnever⟩, hreturns.not.mpr (fun h => h (hlost rfl)), ?_⟩
  refine (blocked_read_returns (hasleep true) rfl rfl).2.1.mpr (fun hnone => ?_)
  rcases hnone.why with hlate | hidle
  · cases hlate
  · cases hidle.1

/-- No order of steps brings the two threads to a halt: a read or write that is under
way gets to its end or to a wait, and a device that is being closed gets closed,
without anything new from libusb. -/
theorem threads_finish {allowed : Cause → Prop} {submitted : Bool} {s : Device}
    (hr : Reach allowed (.opened submitted) s) :
    (busy s.user = true → ∃ t, Finishes s t ∧ (t.user = .away ∨ ∃ r, t.user = .asleep r)) ∧
    (s.user = .joining → ∃ t, Finishes s t ∧ t.user = .closed ∧ t.inputReports = []) :=
  have h := (Wakeful.opened submitted).reach hr
  ⟨busy_finishes h, joining_finishes h⟩

/-- A write in whose thread a callback waits for the mutex, which `read_thread` holds
at that moment, comes to its end; a device that nobody has used can be closed. -/
theorem threads_finish_closed :
    (∃ s : Device, s.user = .writing ∧ s.host = .user ∧ s.callback = .locking [7, 1] ∧
      s.mutex = some .reader ∧ ∃ t, Finishes s t ∧ (t.user = .away ∨ ∃ r, t.user = .asleep r)) ∧
    ∃ t, Finishes { Device.opened true with user := .joining, shutdownThread := true } t ∧
      t.user = .closed ∧ t.inputReports = [] := by
  have hopened : Comes (.opened true) (.opened true) := .refl
  have hwriting := hopened.tail ⟨_, trivial, .send rfl⟩
  have hhandling := hwriting.tail ⟨_, trivial, .go rfl rfl⟩
  have hbroken := hhandling.tail ⟨_, trivial, .broken rfl (.inl rfl)⟩
  have hwaking := hbroken.tail ⟨_, trivial, .cancelNot rfl⟩
  have hcalled := hwaking.tail ⟨_, trivial, .complete [7, 1] .user rfl rfl rfl⟩
  have hlocked := hcalled.tail ⟨_, trivial, .lockLast rfl rfl⟩
  refine ⟨⟨_, rfl, rfl, rfl, rfl, (threads_finish hlocked).1 rfl⟩, ?_⟩
  exact (threads_finish (hopened.tail ⟨_, trivial, .close rfl⟩)).2 rfl

end Libfcd.Proofs
