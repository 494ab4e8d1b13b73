import Libfcd.Hidapi.Threads

namespace Libfcd.Proofs
open Memory Hidapi

theorem returnData_eq_some {inputReports next : List InputReport} {length : Nat} {data : Bytes} :
    returnData inputReports length = some (data, next) ↔
      ∃ rpt, inputReports = rpt :: next ∧ data = rpt.take length := by
  cases inputReports with
  | nil => simp [returnData]
  | cons rpt rest =>
    have hlen : (if length < rpt.length then length else rpt.length) = min length rpt.length := by
      split <;> omega
    simp only [returnData, hlen, List.take_eq_take_min.symm, Option.some.injEq, Prod.mk.injEq,
      List.cons.injEq]
    constructor
    · rintro ⟨rfl, rfl⟩
      exact ⟨rpt, ⟨rfl, rfl⟩, rfl⟩
    · rintro ⟨x, ⟨rfl, rfl⟩, rfl⟩
      exact ⟨rfl, rfl⟩

/-- The walk ends at the last report and has passed all the others. -/
theorem attach_eq (rpt cur : InputReport) (rest : List InputReport) :
    attach rpt cur rest = (cur :: rest ++ [rpt], rest.length) := by
  induction rest generalizing cur with
  | nil => rfl
  | cons next rest ih => simp [attach, ih]

/-- A report goes to the end, and from a list of 32 the first is taken off. The
reader is signalled when there was nothing to read. -/
theorem enqueue_eq (inputReports : List InputReport) (rpt : InputReport) :
    enqueue inputReports rpt =
      some (if inputReports.length < 32 then inputReports ++ [rpt]
        else (inputReports ++ [rpt]).drop 1, inputReports.isEmpty) := by
  cases inputReports with
  | nil => rfl
  | cons cur rest =>
    simp only [enqueue, attach_eq, List.length_cons, List.isEmpty_cons]
    by_cases hroom : rest.length > 30
    · rw [if_pos hroom, if_neg (by omega)]
      rfl
    · rw [if_neg hroom, if_pos (by omega)]

theorem drain_eq (inputReports : List InputReport) : drain inputReports = [] := by
  induction inputReports with
  | nil => rfl
  | cons rpt next ih => exact ih

/-! What the places in the code say about the mutex. -/

def holdsUser : User → Bool
  | .looking _ | .testing _ | .resumed .. | .leaving .. => true
  | _ => false

def holdsReader : Reader → Bool
  | .broadcasting | .unlocking => true
  | _ => false

def holdsCallback : Callback → Bool
  | .holding _ | .unlocking => true
  | _ => false

@[simp] theorem holdsUser_wake (u : User) (res : Wake) : holdsUser (u.wake res) = holdsUser u := by
  cases u <;> rfl

/-- The mutex is with the thread whose place in the code says so. -/
structure Exclusive (s : Device) : Prop where
  user : s.mutex = some .user ↔ holdsUser s.user = true
  reader : s.mutex = some .reader ↔ holdsReader s.reader = true
  callback : s.mutex = some .callback ↔ holdsCallback s.callback = true

theorem Exclusive.opened (submitted : Bool) : Exclusive (.opened submitted) := by
  constructor <;> simp [Device.opened, holdsUser, holdsReader, holdsCallback]

theorem Exclusive.step {c : Cause} {s t : Device} (hs : Step c s t) (h : Exclusive s) :
    Exclusive t := by
  obtain ⟨hu, hr, hc⟩ := h
  cases hs
  case broadcast => exact ⟨by simpa using hu, by simp_all [holdsReader], hc⟩
  case queue signal _ _ =>
    refine ⟨?_, hr, by simp_all [holdsCallback]⟩
    cases signal with
    | false => exact hu
    | true => simpa using hu
  all_goals constructor <;> simp_all [holdsUser, holdsReader, holdsCallback]

/-- The report that a callback has not attached yet. -/
def carried : Callback → List InputReport
  | .locking rpt | .holding rpt => [rpt]
  | _ => []

/-- The list of reports is the queue, which has not lost any. -/
structure Queued (s : Device) : Prop where
  delivered : s.delivered = s.history.came ++ carried s.callback
  queue : s.inputReports = s.history.queue
  sound : s.history.Sound 32

theorem Queued.opened (submitted : Bool) : Queued (.opened submitted) := ⟨rfl, rfl, .empty 32⟩

/-- The first report is handed out. -/
theorem Queued.took {s t : Device} {length : Nat} {data : Bytes} (h : Queued s)
    (hd : returnData s.inputReports length = some (data, t.inputReports))
    (hdelivered : t.delivered = s.delivered) (hcallback : t.callback = s.callback)
    (hhistory : t.history = s.history.take) : Queued t := by
  obtain ⟨rpt, hq, -⟩ := returnData_eq_some.mp hd
  refine ⟨?_, ?_, ?_⟩
  · rw [hdelivered, hcallback, hhistory]
    exact h.delivered
  · rw [hhistory, History.take, ← h.queue, hq]
    rfl
  · rw [hhistory]
    exact h.sound.take

theorem Queued.step {c : Cause} {s t : Device} (hs : Step c s t) (h : Queued s) : Queued t := by
  cases hs
  case first hd => exact h.took hd rfl rfl rfl
  case took hd => exact h.took hd rfl rfl rfl
  case arrived hd => exact h.took hd rfl rfl rfl
  case join => exact ⟨h.delivered, drain_eq _, h.sound.discard⟩
  case complete hc _ _ =>
    have hdelivered := h.delivered
    exact ⟨by simp_all [carried], h.queue, h.sound⟩
  case queue rpt _ _ hc hq =>
    rw [enqueue_eq, Option.some.injEq, Prod.mk.injEq] at hq
    have hdelivered := h.delivered
    refine ⟨?_, ?_, h.sound.push rpt⟩
    · simp only [hdelivered, hc, carried, History.push]
      split <;> simp
    · rw [← hq.1, History.push, h.queue]
      split <;> rfl
  all_goals
    have hdelivered := h.delivered
    exact ⟨by simp_all [carried], h.queue, h.sound⟩

/-- The read behind a wait, from its loop on. -/
def waitOf : User → Option Read
  | .testing r | .asleep r | .woken r _ | .resumed r _ => some r
  | _ => none

@[simp] theorem waitOf_wake (u : User) (res : Wake) : waitOf (u.wake res) = waitOf u := by
  cases u <;> rfl

/-- A wait has a limit or is one without, and one with a limit finds no report
at the head of its loop. -/
structure Patient (s : Device) : Prop where
  limit : ∀ r, waitOf s.user = some r → r.milliseconds = -1 ∨ r.milliseconds > 0
  resumed : ∀ r res, s.user = .resumed r res → r.milliseconds ≠ -1
  empty : ∀ r, s.user = .testing r → r.milliseconds ≠ -1 → s.inputReports = []

theorem Patient.opened (submitted : Bool) : Patient (.opened submitted) := by
  constructor <;> simp [Device.opened, waitOf]

theorem Patient.step {c : Cause} {s t : Device} (hs : Step c s t) (hx : Exclusive s)
    (h : Patient s) : Patient t := by
  obtain ⟨hlimit, hresumed, hempty⟩ := h
  cases hs
  case broadcast hr =>
    refine ⟨by simpa using hlimit, ?_, ?_⟩
    all_goals cases hu : s.user <;> simp_all [User.wake]
  case queue hc hq =>
    have hmutex := hx.callback.mpr (by rw [hc]; rfl)
    have huser : holdsUser s.user = false := by
      have := hx.user
      simp_all
    split
    · refine ⟨by simpa using hlimit, ?_, ?_⟩
      all_goals cases hu : s.user <;> simp_all [User.wake, holdsUser]
    · refine ⟨hlimit, hresumed, ?_⟩
      intro r (hu : s.user = .testing r)
      rw [hu] at huser
      cases huser
  all_goals
    constructor
    all_goals simp_all [waitOf]

/-- What a read that is about to return has to show: a report, the one that was
at the front; nothing, as it was not to wait longer; or an error. -/
def Handed (s : Device) (r : Read) (bytesRead : Int) (data : Bytes) : Prop :=
  (∃ rpt, s.history.went.getLast? = some (rpt, .taken) ∧ data = rpt.take r.length ∧
    bytesRead = data.length) ∨
  (data = [] ∧ bytesRead = 0 ∧ r.milliseconds ≠ -1) ∨
  (data = [] ∧ bytesRead = -1 ∧
    (s.inputReports = [] ∧ s.shutdownThread = true ∨ r.milliseconds > 0))

/-- The first report has just been handed out. -/
theorem Handed.took {s : Device} {length : Nat} {ms : Int} {data : Bytes} {next : List InputReport}
    (hq : Queued s) (hd : returnData s.inputReports length = some (data, next))
    {t : Device} (ht : t.history = s.history.take) : Handed t ⟨length, ms⟩ data.length data := by
  obtain ⟨rpt, hreports, rfl⟩ := returnData_eq_some.mp hd
  refine .inl ⟨rpt, ?_, rfl, rfl⟩
  rw [ht, History.take, ← hq.queue, hreports]
  simp

/-- Every read that is about to return has something to show. -/
def Answered (s : Device) : Prop :=
  ∀ r bytesRead data, s.user = .leaving r bytesRead data → Handed s r bytesRead data

theorem Handed.mono {s t : Device} {r : Read} {bytesRead : Int} {data : Bytes}
    (h : Handed s r bytesRead data) (hhistory : t.history = s.history)
    (hreports : t.inputReports = s.inputReports)
    (hshutdown : s.shutdownThread = true → t.shutdownThread = true) :
    Handed t r bytesRead data := by
  unfold Handed at h ⊢
  rw [hhistory, hreports]
  rcases h with h | h | ⟨hdata, hbytes, h | h⟩
  · exact .inl h
  · exact .inr (.inl h)
  · exact .inr (.inr ⟨hdata, hbytes, .inl ⟨h.1, hshutdown h.2⟩⟩)
  · exact .inr (.inr ⟨hdata, hbytes, .inr h⟩)

theorem Answered.step {c : Cause} {s t : Device} (hs : Step c s t) (hx : Exclusive s)
    (hq : Queued s) (hp : Patient s) (h : Answered s) : Answered t := by
  intro r' n d hu'
  cases hs
  case first hd =>
    obtain ⟨rfl, rfl, rfl⟩ := User.leaving.inj hu'
    exact Handed.took hq hd rfl
  case took hd =>
    obtain ⟨rfl, rfl, rfl⟩ := User.leaving.inj hu'
    exact Handed.took hq hd rfl
  case arrived hd =>
    obtain ⟨rfl, rfl, rfl⟩ := User.leaving.inj hu'
    exact Handed.took hq hd rfl
  case disconnected hreports hd =>
    obtain ⟨rfl, rfl, rfl⟩ := User.leaving.inj hu'
    exact .inr (.inr ⟨rfl, rfl, .inl ⟨hreports, hd⟩⟩)
  case poll r hms _ _ _ =>
    obtain ⟨rfl, rfl, rfl⟩ := User.leaving.inj hu'
    exact .inr (.inl ⟨rfl, rfl, fun hblock => hms (.inl hblock)⟩)
  case gaveUp r hu hl hms =>
    obtain ⟨rfl, rfl, rfl⟩ := User.leaving.inj hu'
    refine .inr (.inr ⟨rfl, rfl, ?_⟩)
    have hlimit := hp.limit r (by rw [hu]; rfl)
    -- the list is empty, with a limit and without one
    have hempty : s.inputReports = [] := by
      by_cases hblock : r.milliseconds = -1
      · exact hms hblock
      · exact hp.empty r hu hblock
    exact .inl ⟨hempty, hl.resolve_left (fun hne => hne hempty)⟩
  case late r hu =>
    obtain ⟨rfl, rfl, rfl⟩ := User.leaving.inj hu'
    exact .inr (.inl ⟨rfl, rfl, hp.resumed r _ hu⟩)
  case failed r hu =>
    obtain ⟨rfl, rfl, rfl⟩ := User.leaving.inj hu'
    have hlimit := hp.limit r (by rw [hu]; rfl)
    exact .inr (.inr ⟨rfl, rfl, .inr (hlimit.resolve_left (hp.resumed r _ hu))⟩)
  case broadcast hr =>
    cases hu : s.user <;> rw [hu] at hu' <;> cases hu'
    exact (h _ _ _ hu).mono rfl rfl id
  case queue signal hc hreports =>
    -- the callback has the mutex, so no read is about to return
    have hmutex := hx.callback.mpr (by rw [hc]; rfl)
    have huser : holdsUser s.user = false := by
      have := hx.user
      simp_all
    have hleaving : holdsUser (.leaving r' n d) = false := by
      rw [← hu']
      cases signal with
      | false => exact huser
      | true => simpa using huser
    cases hleaving
  all_goals first
    | exact (h r' n d hu').mono rfl rfl id
    | exact (h r' n d hu').mono rfl rfl (fun _ => rfl)
    | cases hu'

/-- Reads, and the reports they handed out: each read the next one, or none. -/
inductive Handouts : List Return → List InputReport → Prop where
  | start : Handouts [] []
  | report {returns : List Return} {rpts : List InputReport} (h : Handouts returns rpts)
      (r : Read) (rpt : InputReport) :
      Handouts (returns ++ [⟨r, (rpt.take r.length).length, rpt.take r.length⟩]) (rpts ++ [rpt])
  | nothing {returns : List Return} {rpts : List InputReport} (h : Handouts returns rpts)
      (r : Read) (bytesRead : Int) (hbytes : bytesRead ≤ 0) :
      Handouts (returns ++ [⟨r, bytesRead, []⟩]) rpts

/-- The read that is about to return. -/
def returning : User → List Return
  | .leaving r bytesRead data => [⟨r, bytesRead, data⟩]
  | _ => []

@[simp] theorem returning_wake (u : User) (res : Wake) : returning (u.wake res) = returning u := by
  cases u <;> rfl

/-- The reads have handed out what was taken from the queue. -/
def Accounted (s : Device) : Prop :=
  Handouts (s.returned ++ returning s.user) (s.history.gone .taken)

/-- The first report is taken for the read that hands it out. -/
theorem Accounted.took {s : Device} {r : Read} {data : Bytes} {next : List InputReport}
    (h : Accounted s) (hq : Queued s) (hu : returning s.user = [])
    (hd : returnData s.inputReports r.length = some (data, next)) :
    Handouts (s.returned ++ [⟨r, data.length, data⟩]) (s.history.take.gone .taken) := by
  obtain ⟨rpt, hreports, rfl⟩ := returnData_eq_some.mp hd
  rw [History.gone_taken (hq.queue.symm.trans hreports)]
  rw [Accounted, hu, List.append_nil] at h
  exact h.report r rpt

theorem Accounted.step {c : Cause} {s t : Device} (hs : Step c s t) (hq : Queued s)
    (h : Accounted s) : Accounted t := by
  have hnothing : ∀ (r : Read) (bytesRead : Int), bytesRead ≤ 0 → returning s.user = [] →
      Handouts (s.returned ++ [⟨r, bytesRead, []⟩]) (s.history.gone .taken) := by
    intro r bytesRead hbytes hu
    rw [Accounted, hu, List.append_nil] at h
    exact h.nothing r bytesRead hbytes
  cases hs
  case first hu hd => exact h.took hq (by rw [hu]; rfl) hd
  case took _ hu hd => exact h.took hq (by rw [hu]; rfl) hd
  case arrived hu hd => exact h.took hq (by rw [hu]; rfl) hd
  case disconnected hu _ _ => exact hnothing _ _ (by decide) (by rw [hu]; rfl)
  case poll hu _ _ => exact hnothing _ _ (by decide) (by rw [hu]; rfl)
  case gaveUp hu _ _ => exact hnothing _ _ (by decide) (by rw [hu]; rfl)
  case late hu => exact hnothing _ _ (by decide) (by rw [hu]; rfl)
  case failed hu => exact hnothing _ _ (by decide) (by rw [hu]; rfl)
  case broadcast => simpa [Accounted] using h
  case queue signal _ _ =>
    have hgone := History.gone_push (f := .taken) (by simp) 32 s.history
    cases signal <;> simpa [Accounted, hgone] using h
  case join hu _ _ => simpa [Accounted, hu, returning, History.gone_discard] using h
  all_goals first
    | exact h
    | simp_all [Accounted, returning]

@[simp] theorem wake_eq_joining {u : User} {res : Wake} : u.wake res = .joining ↔ u = .joining := by
  cases u <;> simp [User.wake]

@[simp] theorem wake_eq_writing {u : User} {res : Wake} : u.wake res = .writing ↔ u = .writing := by
  cases u <;> simp [User.wake]

@[simp] theorem wake_eq_closed {u : User} {res : Wake} : u.wake res = .closed ↔ u = .closed := by
  cases u <;> simp [User.wake]

/-- A callback runs in a thread that waits inside libusb until it is done. -/
def Hosted (s : Device) : Prop := s.callback ≠ .none → s.handles s.host

theorem Hosted.step {c : Cause} {s t : Device} (hs : Step c s t) (h : Hosted s) : Hosted t := by
  unfold Hosted at h ⊢
  cases hs
  case complete data t _ _ ht => exact fun _ => by cases t <;> exact ht
  case idle t _ _ ht => exact fun _ => by cases t <;> exact ht
  case queue signal _ _ =>
    intro _
    cases hh : s.host <;> cases signal <;> simp_all [Device.handles]
  all_goals
    intro hc
    cases hh : s.host <;> simp_all [Device.handles, Device.free]

/-- Only a device that is closed has given its queue up. -/
def Undrained (s : Device) : Prop :=
  s.history.gone .discarded ≠ [] → s.user = .closed

theorem Undrained.step {c : Cause} {s t : Device} (hs : Step c s t) (h : Undrained s) :
    Undrained t := by
  unfold Undrained at h ⊢
  cases hs
  case join => exact fun _ => rfl
  case broadcast =>
    intro hgone
    rw [h hgone]
    rfl
  case queue rpt list signal hc hq =>
    intro hgone
    rw [History.gone_push (by simp)] at hgone
    cases signal <;> simp [h hgone, User.wake]
  all_goals first
    | exact h
    | simp_all [History.gone_take]

/-- A device that is closed has nothing left, and nothing comes any more. -/
def Finished (s : Device) : Prop :=
  s.user = .closed → s.inputReports = [] ∧ s.reader = .ended ∧ s.callback = .none

theorem Finished.step {c : Cause} {s t : Device} (hs : Step c s t) (hh : Hosted s)
    (h : Finished s) : Finished t := by
  unfold Finished at h ⊢
  cases hs
  case join hu hr _ =>
    refine fun _ => ⟨drain_eq _, hr, ?_⟩
    by_contra hc
    have := hh hc
    cases hhost : s.host <;> simp_all [Device.handles]
  case broadcast hr =>
    intro hu
    have := h (wake_eq_closed.mp hu)
    simp_all
  case queue signal _ _ =>
    intro hu
    have := h (by cases signal <;> simpa using hu)
    simp_all
  case complete t _ _ ht | idle t _ _ ht =>
    intro hu
    have := h hu
    cases t <;> simp_all [Device.handles]
  all_goals first
    | exact h
    | simp_all

/-- What holds between any two steps of the threads. -/
structure Orderly (s : Device) : Prop extends Exclusive s, Queued s, Patient s where
  answered : Answered s
  accounted : Accounted s
  undrained : Undrained s
  hosted : Hosted s
  finished : Finished s

theorem Orderly.opened (submitted : Bool) : Orderly (.opened submitted) :=
  ⟨.opened submitted, .opened submitted, .opened submitted,
    (by intro r bytesRead data hu; cases hu), .start, fun hgone => absurd rfl hgone,
    fun hc => absurd rfl hc, nofun⟩

theorem Orderly.step {c : Cause} {s t : Device} (hs : Step c s t) (h : Orderly s) : Orderly t :=
  ⟨h.toExclusive.step hs, h.toQueued.step hs, h.toPatient.step hs h.toExclusive,
    h.answered.step hs h.toExclusive h.toQueued h.toPatient, h.accounted.step hs h.toQueued,
    h.undrained.step hs, h.hosted.step hs, h.finished.step hs h.hosted⟩

theorem Orderly.reach {allowed : Cause → Prop} {s t : Device} (hr : Reach allowed s t)
    (h : Orderly s) : Orderly t := by
  induction hr with
  | refl => exact h
  | tail _ hs ih =>
    obtain ⟨c, -, hs⟩ := hs
    exact ih.step hs

/-- However the two threads and libusb take turns, reports are handed to
`hid_read_timeout` in the order in which the device sent them, each to one read,
and whole or cut to its length. None is lost, but for the oldest of more than 32
that nobody has read, and those that are left when the device is closed. -/
theorem reports_in_order {submitted : Bool} {s : Device}
    (hr : Reach (fun _ => True) (.opened submitted) s) :
    s.delivered = s.history.came ++ carried s.callback ∧
    s.history.came = s.history.went.map Prod.fst ++ s.inputReports ∧
    s.inputReports.length ≤ 32 ∧
    (∀ i rpt n, s.history.went[i]? = some (rpt, .displaced n) →
      32 ≤ n ∧ i + n < s.history.came.length) ∧
    (s.history.gone .discarded ≠ [] → s.user = .closed) ∧
    (s.user = .closed → s.inputReports = [] ∧ carried s.callback = []) ∧
    Handouts (s.returned ++ returning s.user) (s.history.gone .taken) ∧
    ∀ r bytesRead data, s.user = .leaving r bytesRead data → Handed s r bytesRead data := by
  have h := (Orderly.opened submitted).reach hr
  refine ⟨h.delivered, ?_, ?_, h.sound.displaced, h.undrained, fun hu => ?_, h.accounted,
    h.answered⟩
  · rw [h.sound.conserved, h.queue]
  · rw [h.queue]
    exact h.sound.room
  · obtain ⟨hreports, -, hcallback⟩ := h.finished hu
    exact ⟨hreports, by rw [hcallback]; rfl⟩

/-- The first read on a device goes to sleep. -/
theorem reach_asleep {allowed : Cause → Prop} (hcode : allowed .code) (hcaller : allowed .caller)
    (submitted : Bool) (r : Read) (hms : r.milliseconds = -1) :
    Reach allowed (.opened submitted) { Device.opened submitted with user := .asleep r } := by
  have hopened : Reach allowed (.opened submitted) (.opened submitted) := .refl
  have hlocking := hopened.tail ⟨_, hcaller, .read r rfl⟩
  have hlooking := hlocking.tail ⟨_, hcode, .lock rfl rfl⟩
  have htesting := hlooking.tail ⟨_, hcode, .wait rfl rfl rfl (.inl hms)⟩
  exact htesting.tail ⟨_, hcode, .sleep rfl rfl rfl⟩

/-- A report of two bytes wakes it and is read; the device is closed on another. -/
theorem reports_in_order_one_report : ∃ s : Device, s.delivered = [[7, 1], [7, 2]] ∧
    s.returned = [⟨⟨64, -1⟩, 2, [7, 1]⟩] ∧ s.inputReports = [] ∧
    s.history.went = [([7, 1], .taken), ([7, 2], .discarded)] ∧
    Handouts (s.returned ++ returning s.user) (s.history.gone .taken) := by
  have hasleep : Reach (fun _ => True) (.opened true)
      { Device.opened true with user := .asleep ⟨64, -1⟩ } :=
    reach_asleep trivial trivial true ⟨64, -1⟩ rfl
  have hhandling := hasleep.tail ⟨_, trivial, .go rfl rfl⟩
  have hlocking := hhandling.tail ⟨_, trivial, .complete [7, 1] .reader rfl rfl (.inl rfl)⟩
  have hholding := hlocking.tail ⟨_, trivial, .lockReport rfl rfl⟩
  have hqueued := hholding.tail ⟨_, trivial, .queue rfl rfl⟩
  have hunlocked := hqueued.tail ⟨_, trivial, .unlockReport rfl⟩
  have hsubmitted := hunlocked.tail ⟨_, trivial, .submit rfl⟩
  have hrelocked := hsubmitted.tail ⟨_, trivial, .relock rfl rfl rfl⟩
  have hread := hrelocked.tail ⟨_, trivial, .took rfl rfl rfl⟩
  have haway := hread.tail ⟨_, trivial, .unlock rfl⟩
  have hsecond := haway.tail ⟨_, trivial, .complete [7, 2] .reader rfl rfl (.inl rfl)⟩
  have hheld := hsecond.tail ⟨_, trivial, .lockReport rfl rfl⟩
  have hwaiting := hheld.tail ⟨_, trivial, .queue rfl rfl⟩
  have hfree := hwaiting.tail ⟨_, trivial, .unlockReport rfl⟩
  have hagain := hfree.tail ⟨_, trivial, .submit rfl⟩
  have hclosing := hagain.tail ⟨_, trivial, .close rfl⟩
  have hback := hclosing.tail ⟨_, trivial, .handled rfl (.inl rfl)⟩
  have hcancelling := hback.tail ⟨_, trivial, .stop rfl rfl⟩
  have hwaking := hcancelling.tail ⟨_, trivial, .cancelNot rfl⟩
  have hbroadcasting := hwaking.tail ⟨_, trivial, .lockLast rfl rfl⟩
  have hunlocking := hbroadcasting.tail ⟨_, trivial, .broadcast rfl⟩
  have hended := hunlocking.tail ⟨_, trivial, .unlockLast rfl⟩
  have hclosed := hended.tail ⟨_, trivial, .join rfl rfl rfl⟩
  exact ⟨_, rfl, rfl, rfl, rfl, (reports_in_order hclosed).2.2.2.2.2.2.1⟩

end Libfcd.Proofs
