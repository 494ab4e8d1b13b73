import Libfcd.Proofs.Display
import Libfcd.Proofs.Silence

namespace Libfcd.Proofs
open Interaction Memory Hidapi
open Model (Call Happening Stream)

variable {α σ : Type} {host : Endian} {h : UsbHost σ} {t t' : Stack} {s s' : σ}

/-- The calls among those below that do not concern devices. -/
def plainCalls (es : List UsbHappening) : List Happening :=
  es.flatMap (fun
    | ⟨.plain c, r⟩ => [⟨c, r⟩]
    | _ => [])

/-- What a call puts out on a stream. -/
def texts (stream : Stream) : Happening → List String
  | ⟨.print out text, _⟩ => if out = stream then [text] else []
  | _ => []

theorem texts_eq_nil {stream : Stream} {c : Call} {r : c.Answer}
    (hprint : ∀ out text, c ≠ .print out text) : texts stream ⟨c, r⟩ = [] := by
  cases c with
  | print out text => exact absurd rfl (hprint out text)
  | _ => rfl

theorem printed_eq_join (stream : Stream) (es : List Happening) :
    printed stream es = String.join (es.flatMap (texts stream)) := by
  fun_induction printed stream es with
  | case1 => rfl
  | case2 out text _ es ih =>
    rw [List.flatMap_cons, String.join_append, ← ih]
    by_cases hout : out = stream <;> simp [texts, hout]
  | case3 e es hother ih =>
    obtain ⟨c, r⟩ := e
    have hprint : ∀ out text, c ≠ .print out text := by
      rintro out text rfl
      exact hother out text r rfl
    rw [List.flatMap_cons, texts_eq_nil hprint, List.nil_append, ih]

theorem texts_silent {stream : Stream} {es : List UsbHappening} (h : ∀ e ∈ es, Silent e.1) :
    (plainCalls es).flatMap (texts stream) = [] := by
  refine List.flatMap_eq_nil_iff.mpr (fun e he => ?_)
  obtain ⟨⟨c, r⟩, hmem, hplain⟩ := List.mem_flatMap.mp he
  have hsilent := h _ hmem
  cases c with
  | plain c =>
    obtain rfl := List.mem_singleton.mp hplain
    refine texts_eq_nil ?_
    rintro out text rfl
    exact hsilent
  | _ => cases hplain

theorem plainCalls_hidWrite (h : UsbHost σ) (dev : HidDevice) (data : Bytes) (s : σ) :
    plainCalls ((hidWrite dev data).events h s) = [] := by
  cases hhandle : dev.deviceHandle with
  | none =>
    rw [hidWrite, hhandle]
    rfl
  | some handle =>
    cases data with
    | nil =>
      rw [hidWrite, hhandle]
      rfl
    | cons reportNumber rest =>
      simp only [hidWrite, hhandle, Program.expect_some, Program.done_bind, List.head?_cons]
      split <;> rfl

/-- Each call puts out what it should and nothing else. -/
theorem hidLibusb_puts {c : Call} {r : c.Answer}
    (hrun : (hidLibusb host c t).run h s = some ((r, t'), s')) (stream : Stream) :
    (plainCalls ((hidLibusb host c t).events h s)).flatMap (texts stream) =
      texts stream ⟨c, r⟩ := by
  by_cases hprint : ∃ out text, c = .print out text
  · obtain ⟨out, text, rfl⟩ := hprint
    exact List.append_nil _
  rw [texts_eq_nil (fun out text hc => hprint ⟨out, text, hc⟩)]
  by_cases hwrite : ∃ dev data, c = .hidWrite dev data
  · obtain ⟨d, data, rfl⟩ := hwrite
    change (Program.expect (t.devices.lookup d) >>= fun dev =>
      hidWrite dev data >>= fun res => pure (res, t)).run h s = _ at hrun
    change (plainCalls ((Program.expect (t.devices.lookup d) >>= fun dev =>
      hidWrite dev data >>= fun res => pure (res, t)).events h s)).flatMap _ = _
    cases hdev : t.devices.lookup d with
    | none => rfl
    | some dev =>
      rw [hdev, Program.expect_some, Program.done_bind, Program.run_bind] at hrun
      obtain ⟨⟨res, u⟩, hsent, -⟩ := Option.bind_eq_some_iff.mp hrun
      rw [Program.expect_some, Program.done_bind, Program.events_bind_of_run hsent, plainCalls,
        List.flatMap_append]
      change (plainCalls ((hidWrite dev data).events h s) ++ []).flatMap _ = _
      rw [plainCalls_hidWrite]
      rfl
  · have hsilent := hidLibusb_silent host (fun dev data hc => hwrite ⟨dev, data, hc⟩)
      (fun out text hc => hprint ⟨out, text, hc⟩) t
    exact texts_silent (hsilent.calls ⟨hrun, rfl⟩).1

/-- A run on `hid-libusb.c` puts out what the program does. -/
theorem stack_prints {p : Model.Hid α} (any : (c : Call) → c.Answer) {a : α}
    (hrun : Program.run h ((hidLibusb host).implement p t) s = some ((a, t'), s'))
    (stream : Stream) :
    printed stream (plainCalls (Program.events h ((hidLibusb host).implement p t) s)) =
      printed stream (Program.events ((hidLibusb host).answers any h) p (t, s)) := by
  rw [printed_eq_join, printed_eq_join, plainCalls, List.flatMap_assoc]
  refine congrArg String.join (Layer.events_answers (fun c t s x s' hcall => ?_) hrun)
  rw [← List.flatMap_assoc]
  exact hidLibusb_puts hcall stream

end Libfcd.Proofs
