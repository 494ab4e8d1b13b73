import Libfcd.Memory.Buffer

namespace Libfcd.Hidapi
open Memory

/-- The data of a `struct input_report`. Its link is the order of the list. -/
abbrev InputReport := Bytes

/-- `return_data` on the list `dev->input_reports`: the bytes copied out and the
list left. It follows the first pointer without a test. -/
def returnData (inputReports : List InputReport) (length : Nat) :
    Option (Bytes × List InputReport) :=
  match inputReports with
  | [] => none
  | rpt :: next =>
    let len := if length < rpt.length then length else rpt.length
    some (rpt.take len, next)

/-- The walk from `cur` to the end of the list, where `rpt` is attached, and the
number of steps it took. -/
def attach (rpt : InputReport) : InputReport → List InputReport → List InputReport × Nat
  | cur, [] => ([cur, rpt], 0)
  | cur, next :: rest =>
    let (list, numQueued) := attach rpt next rest
    (cur :: list, numQueued + 1)

/-- The part of `read_callback` under the mutex: the list with a new report, and
whether the condition is signalled. -/
def enqueue (inputReports : List InputReport) (rpt : InputReport) :
    Option (List InputReport × Bool) :=
  match inputReports with
  | [] => some ([rpt], true)
  | cur :: rest =>
    let (list, numQueued) := attach rpt cur rest
    if numQueued > 30 then (returnData list 0).map (fun r => (r.2, false))
    else some (list, false)

/-- `while (dev->input_reports) return_data(dev, NULL, 0);` -/
def drain : List InputReport → List InputReport
  | [] => []
  | _ :: next => drain next

end Libfcd.Hidapi
