import Libfcd.Hidapi.Reports
import Libfcd.Memory.Queue
import Mathlib.Logic.Relation

namespace Libfcd.Hidapi
open Memory

/-- The arguments of `hid_read_timeout`; -1 milliseconds are a wait without end. -/
structure Read where
  length : Nat
  milliseconds : Int
  deriving DecidableEq, Repr

/-- What `pthread_cond_timedwait` comes back with. A wait without a limit takes no
notice of it. -/
inductive Wake where
  | signalled
  | timedOut
  | failed
  deriving DecidableEq, Repr

/-- Where the thread is that uses the device. -/
inductive User where
  | away
  /-- in a transfer of `hid_write` -/
  | writing
  /-- at the first lock of `hid_read_timeout` -/
  | locking (r : Read)
  /-- at `if (dev->input_reports)` -/
  | looking (r : Read)
  /-- at the head of a loop around a wait -/
  | testing (r : Read)
  /-- in the wait, which gives the mutex up -/
  | asleep (r : Read)
  /-- out of the wait and before the mutex -/
  | woken (r : Read) (res : Wake)
  /-- at the tests behind a wait with a limit -/
  | resumed (r : Read) (res : Wake)
  /-- at `ret:` -/
  | leaving (r : Read) (bytesRead : Int) (data : Bytes)
  /-- in the `pthread_join` of `hid_close` -/
  | joining
  | closed
  deriving DecidableEq, Repr

/-- Where `read_thread` is. -/
inductive Reader where
  /-- at `while (!dev->shutdown_thread)` -/
  | testing
  /-- in `libusb_handle_events` -/
  | handling
  /-- behind the loop, at `libusb_cancel_transfer` -/
  | cancelling
  /-- in the last `libusb_handle_events` -/
  | draining
  /-- before the mutex for the broadcast -/
  | waking
  | broadcasting
  | unlocking
  | ended
  deriving DecidableEq, Repr

/-- Where `read_callback` is. It runs in a thread that handles events of libusb. -/
inductive Callback where
  | none
  | locking (rpt : InputReport)
  | holding (rpt : InputReport)
  | unlocking
  | submitting
  deriving DecidableEq, Repr

/-- Who holds `dev->mutex`, and whose thread a callback runs in. -/
inductive Thread where
  | user
  | reader
  | callback
  deriving DecidableEq, Repr

/-- A `hid_read_timeout` that has returned, with its result and what it stored. -/
structure Return where
  read : Read
  bytesRead : Int
  data : Bytes
  deriving DecidableEq, Repr

/-- An open `hid_device` with its two threads. `inFlight` is a transfer that was
submitted and has not come back. The last three are no part of the program: all
reports that libusb delivered, the queue with its past, and the reads so far. -/
structure Device where
  inputReports : List InputReport
  shutdownThread : Bool
  mutex : Option Thread
  inFlight : Bool
  user : User
  reader : Reader
  callback : Callback
  host : Thread
  delivered : List InputReport
  history : History InputReport
  returned : List Return
  deriving DecidableEq, Repr

/-- What `hid_open_path` hands over. Nobody looks at whether the first
`libusb_submit_transfer` went well; `submitted` is whether it did. -/
def Device.opened (submitted : Bool) : Device where
  inputReports := []
  shutdownThread := false
  mutex := none
  inFlight := submitted
  user := .away
  reader := .testing
  callback := .none
  host := .reader
  delivered := []
  history := .empty
  returned := []

/-- A condition variable wakes the user if it waits. -/
def User.wake : User → Wake → User
  | .asleep r, res => .woken r res
  | u, _ => u

/-- The thread `t` is inside libusb, where callbacks may run. -/
def Device.handles (s : Device) : Thread → Prop
  | .user => s.user = .writing
  | .reader => s.reader = .handling ∨ s.reader = .draining
  | .callback => False

/-- A thread in which a callback runs goes on when it is done. -/
def Device.free (s : Device) (t : Thread) : Prop := s.callback = .none ∨ s.host ≠ t

/-- What makes a step: the code of the two threads, libusb that reports a transfer
or a fatal error, time, or the program that uses the device. -/
inductive Cause where
  | code
  | usb
  | fatal
  | time
  | caller
  deriving DecidableEq, Repr

/-- One step of one of the threads. `shutdown_thread` is not under the mutex; a
read of it finds what was stored last. -/
inductive Step : Cause → Device → Device → Prop where
  -- `hid_write` and `hid_read_timeout`
  | send {s : Device} (hu : s.user = .away) : Step .caller s { s with user := .writing }
  | sent {s : Device} (hu : s.user = .writing) (hf : s.free .user) :
      Step .code s { s with user := .away }
  | read {s : Device} (r : Read) (hu : s.user = .away) :
      Step .caller s { s with user := .locking r }
  | lock {s : Device} {r : Read} (hu : s.user = .locking r) (hm : s.mutex = none) :
      Step .code s { s with user := .looking r, mutex := some .user }
  | first {s : Device} {r : Read} {data : Bytes} {next : List InputReport}
      (hu : s.user = .looking r) (hd : returnData s.inputReports r.length = some (data, next)) :
      Step .code s { s with
        user := .leaving r data.length data, inputReports := next, history := s.history.take }
  | disconnected {s : Device} {r : Read} (hu : s.user = .looking r) (hq : s.inputReports = [])
      (hd : s.shutdownThread = true) : Step .code s { s with user := .leaving r (-1) [] }
  | wait {s : Device} {r : Read} (hu : s.user = .looking r) (hq : s.inputReports = [])
      (hd : s.shutdownThread = false) (hms : r.milliseconds = -1 ∨ r.milliseconds > 0) :
      Step .code s { s with user := .testing r }
  | poll {s : Device} {r : Read} (hu : s.user = .looking r) (hq : s.inputReports = [])
      (hd : s.shutdownThread = false) (hms : ¬ (r.milliseconds = -1 ∨ r.milliseconds > 0)) :
      Step .code s { s with user := .leaving r 0 [] }
  | sleep {s : Device} {r : Read} (hu : s.user = .testing r) (hq : s.inputReports = [])
      (hd : s.shutdownThread = false) :
      Step .code s { s with user := .asleep r, mutex := none }
  -- the loop is left: a wait without a limit looks at the list again, one with a
  -- limit does not
  | took {s : Device} {r : Read} {data : Bytes} {next : List InputReport}
      (hu : s.user = .testing r) (hms : r.milliseconds = -1)
      (hd : returnData s.inputReports r.length = some (data, next)) :
      Step .code s { s with
        user := .leaving r data.length data, inputReports := next, history := s.history.take }
  | gaveUp {s : Device} {r : Read} (hu : s.user = .testing r)
      (hl : s.inputReports ≠ [] ∨ s.shutdownThread = true)
      (hms : r.milliseconds = -1 → s.inputReports = []) :
      Step .code s { s with user := .leaving r (-1) [] }
  | spurious {s : Device} {r : Read} (res : Wake) (hu : s.user = .asleep r)
      (hms : r.milliseconds = -1 → res = .signalled) :
      Step .time s { s with user := .woken r res }
  | relock {s : Device} {r : Read} {res : Wake} (hu : s.user = .woken r res) (hm : s.mutex = none)
      (hms : r.milliseconds = -1) :
      Step .code s { s with user := .testing r, mutex := some .user }
  | resume {s : Device} {r : Read} {res : Wake} (hu : s.user = .woken r res) (hm : s.mutex = none)
      (hms : r.milliseconds ≠ -1) :
      Step .code s { s with user := .resumed r res, mutex := some .user }
  | arrived {s : Device} {r : Read} {data : Bytes} {next : List InputReport}
      (hu : s.user = .resumed r .signalled)
      (hd : returnData s.inputReports r.length = some (data, next)) :
      Step .code s { s with
        user := .leaving r data.length data, inputReports := next, history := s.history.take }
  | again {s : Device} {r : Read} (hu : s.user = .resumed r .signalled) (hq : s.inputReports = []) :
      Step .code s { s with user := .testing r }
  | late {s : Device} {r : Read} (hu : s.user = .resumed r .timedOut) :
      Step .code s { s with user := .leaving r 0 [] }
  | failed {s : Device} {r : Read} (hu : s.user = .resumed r .failed) :
      Step .code s { s with user := .leaving r (-1) [] }
  | unlock {s : Device} {r : Read} {bytesRead : Int} {data : Bytes}
      (hu : s.user = .leaving r bytesRead data) :
      Step .code s { s with
        user := .away, mutex := none, returned := s.returned ++ [⟨r, bytesRead, data⟩] }
  -- `hid_close`
  | close {s : Device} (hu : s.user = .away) :
      Step .caller s { s with user := .joining, shutdownThread := true }
  | join {s : Device} (hu : s.user = .joining) (hr : s.reader = .ended) (hm : s.mutex = none) :
      Step .code s { s with
        user := .closed, inputReports := drain s.inputReports, history := s.history.discard }
  -- `read_thread`
  | go {s : Device} (hr : s.reader = .testing) (hd : s.shutdownThread = false) :
      Step .code s { s with reader := .handling }
  | stop {s : Device} (hr : s.reader = .testing) (hd : s.shutdownThread = true) :
      Step .code s { s with reader := .cancelling }
  | handled {s : Device} (hr : s.reader = .handling) (hf : s.free .reader) :
      Step .code s { s with reader := .testing }
  | broken {s : Device} (hr : s.reader = .handling) (hf : s.free .reader) :
      Step .fatal s { s with reader := .cancelling }
  | cancel {s : Device} (hr : s.reader = .cancelling) : Step .code s { s with reader := .draining }
  | cancelNot {s : Device} (hr : s.reader = .cancelling) : Step .code s { s with reader := .waking }
  | drained {s : Device} (hr : s.reader = .draining) (hf : s.free .reader) :
      Step .code s { s with reader := .waking }
  | lockLast {s : Device} (hr : s.reader = .waking) (hm : s.mutex = none) :
      Step .code s { s with reader := .broadcasting, mutex := some .reader }
  | broadcast {s : Device} (hr : s.reader = .broadcasting) :
      Step .code s { s with reader := .unlocking, user := s.user.wake .signalled }
  | unlockLast {s : Device} (hr : s.reader = .unlocking) :
      Step .code s { s with reader := .ended, mutex := none }
  -- `read_callback`
  -- a transfer comes back: completed; cancelled or without a device; or for a
  -- reason that only has it submitted again
  | complete {s : Device} (data : Bytes) (t : Thread) (hc : s.callback = .none)
      (hf : s.inFlight = true) (ht : s.handles t) :
      Step .usb s { s with
        inFlight := false, host := t, callback := .locking data,
        delivered := s.delivered ++ [data] }
  | stopped {s : Device} (t : Thread) (hc : s.callback = .none) (hf : s.inFlight = true)
      (ht : s.handles t) : Step .usb s { s with inFlight := false, shutdownThread := true }
  | idle {s : Device} (t : Thread) (hc : s.callback = .none) (hf : s.inFlight = true)
      (ht : s.handles t) :
      Step .usb s { s with inFlight := false, host := t, callback := .submitting }
  | lockReport {s : Device} {rpt : InputReport} (hc : s.callback = .locking rpt)
      (hm : s.mutex = none) :
      Step .code s { s with callback := .holding rpt, mutex := some .callback }
  | queue {s : Device} {rpt : InputReport} {list : List InputReport} {signal : Bool}
      (hc : s.callback = .holding rpt) (hq : enqueue s.inputReports rpt = some (list, signal)) :
      Step .code s { s with
        callback := .unlocking, inputReports := list, history := s.history.push 32 rpt,
        user := if signal then s.user.wake .signalled else s.user }
  | unlockReport {s : Device} (hc : s.callback = .unlocking) :
      Step .code s { s with callback := .submitting, mutex := none }
  | submit {s : Device} (hc : s.callback = .submitting) :
      Step .code s { s with callback := .none, inFlight := true }
  | submitNot {s : Device} (hc : s.callback = .submitting) :
      Step .code s { s with callback := .none, shutdownThread := true }

/-- The second state is come to from the first in steps of the causes allowed. -/
abbrev Reach (allowed : Cause → Prop) : Device → Device → Prop :=
  Relation.ReflTransGen (fun s t => ∃ c, allowed c ∧ Step c s t)

end Libfcd.Hidapi
