import Libfcd.Proofs.PutOut
import Libfcd.Proofs.Reports
import Libfcd.Proofs.Settings
import Libfcd.Proofs.Wires

namespace Libfcd.Proofs
open Interaction Memory Model Devices Hidapi

variable {σ : Type}

/-- A program without numbered reports ends on `hid-libusb.c` as on the host that it
is. -/
theorem runs_stackHost {α : Type} {host : Endian} {p : Hid α} (hp : Unnumbered.Only p)
    {h : UsbHost σ} {t t' : Stack} {s s' : σ} {a : α}
    (hrun : Program.run h ((hidLibusb host).implement p t) s = some ((a, t'), s')) :
    Program.Runs (stackHost host h) p (t, s) a (t', s')
      (Program.events ((hidLibusb host).answers Bus.elsewhere h) p (t, s)) := by
  have hanswers : Program.run ((hidLibusb host).answers Bus.elsewhere h) p (t, s) =
      some (a, (t', s')) := Layer.run_answers hrun
  refine hp.runs (fun c x hc => ?_) ⟨hanswers, rfl⟩
  cases c with
  | hidWrite dev report =>
    rw [stackHost, unnumbered, if_pos (hc dev report rfl)]
  | _ => rfl

/-- Two dongles on one bus, one with an application and one without, and an image for
them. -/
def portsOfTwo : Ports Boot where
  wires := ⟨fun path => if path = "0001:0004:02" then installed else oneBlock, none, "", []⟩
  attached := [⟨7, 1, 4⟩, ⟨8, 1, 5⟩]
  faults := []
  file := List.replicate 48 9

/-- `fcd` on `hid-libusb.c` on such a bus puts out what the dongles hold, as far as they
could be asked, and leaves them as they were but for their pointers. -/
theorem fcd_on_usb {wipe : Plane UInt8 → Plane UInt8} {h : UsbHost σ}
    {view : σ → Wires Boot} (hh : Wired (Boot.serve wipe) h view) (host : Endian)
    (query : String → Bytes) (hquery : ∀ path, (query path).length = 64) (s : σ)
    {status : Int} {stack : Stack} {t : σ}
    (hrun : Program.run h ((hidLibusb host).implement (fcdMain host query) Stack.start) s =
      some ((status, stack), t)) :
    let es := Program.events (stackHost host h) (fcdMain host query) (Stack.start, s)
    let below := Program.events h ((hidLibusb host).implement (fcdMain host query) Stack.start) s
    ∃ (devs : DeviceList) (vs : List Visit), Toured es devs vs ∧
      Visited devs.paths vs ∧ (status = exitSuccess ↔ ∀ v ∈ vs, v.result = 0) ∧
      (∀ stream, printed stream (plainCalls below) =
        String.join (vs.map fun v => printed stream v.events)) ∧
      Displayed query (view s).dongle vs (view t).dongle ∧
      Repointed (view s).dongle (view t).dongle vs := by
  intro es below
  have hstack := runs_stackHost (Unnumbered.fcdMain host query) hrun
  obtain ⟨status', t', es', devs, vs, hdebug⟩ :=
    exists_debugRun (stackHost_populated hh host) (Stack.start, s) host query hquery
  obtain ⟨rfl, rfl⟩ := Prod.mk.inj (Option.some.inj (hstack.run.symm.trans hdebug.run.run))
  obtain rfl : es = es' := hdebug.run.events
  refine ⟨devs, vs, hdebug.toured, hdebug.visited, hdebug.status, fun stream => ?_,
    hdebug.displayed, hdebug.displayed.repointed⟩
  rw [stack_prints Bus.elsewhere hrun, ← hstack.events]
  exact hdebug.output stream

theorem fcd_on_usb_two :
    let h := Ports.host (Boot.serve (fun _ _ => 0xff))
    let q := fcdMain .little (fun _ => List.replicate 64 0)
    let below := Program.events h ((hidLibusb .little).implement q Stack.start) portsOfTwo
    ∃ (stack : Stack) (t : Ports Boot) (devs : DeviceList) (vs : List Visit),
      Program.run h ((hidLibusb .little).implement q Stack.start) portsOfTwo =
        some ((exitSuccess, stack), t) ∧
      printed .stdout (plainCalls below) =
        "[0001:0004:02]\tFCD\n\tRange: 0x00000000 - 0x00000030\n" ++
        dump (List.replicate 48 7) ++
        "[0001:0005:02]\tFCD\n\tRange: 0x00000000 - 0x00000030\n" ++
        dump (List.replicate 48 0xff) ∧
      Visited devs.paths vs ∧ (∀ v ∈ vs, v.result = 0) ∧
      Displayed (fun _ => List.replicate 64 0) portsOfTwo.wires.dongle vs t.wires.dongle := by
  intro h q below
  obtain ⟨⟨⟨status, stack⟩, t⟩, hrun, hend⟩ := Option.map_eq_some_iff.mp
    (show (Program.run h ((hidLibusb .little).implement q Stack.start) portsOfTwo).map (·.1.1) =
      some exitSuccess by decide +kernel)
  obtain rfl : status = exitSuccess := hend
  obtain ⟨devs, vs, -, hvisited, hstatus, -, hdisplayed, -⟩ :=
    fcd_on_usb (Ports.wired (Boot.serve (fun _ _ => 0xff))) .little (fun _ => List.replicate 64 0)
      (fun _ => List.length_replicate ..) portsOfTwo hrun
  exact ⟨stack, t, devs, vs, hrun, by decide +kernel, hvisited, hstatus.mp rfl, hdisplayed⟩

namespace Deals

theorem fcdGetValue (dev : Fcd) (id : UInt32) (value : Option UInt8) :
    Only dev (Model.fcdGetValue (some dev) id value) := by
  unfold Model.fcdGetValue
  split
  · exact .done _
  · exact (fcdGet dev _ _ 1).bind (fun _ => .done _)

end Deals

end Libfcd.Proofs
