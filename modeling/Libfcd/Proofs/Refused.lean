import Libfcd.Devices.Bootloader
import Libfcd.Model.Flash
import Libfcd.Proofs.Opening
import Libfcd.Proofs.WriteTrace

namespace Libfcd.Proofs
open Interaction Memory Model Devices

variable {σ : Type} {wipe : Plane UInt8 → Plane UInt8} {h : Host σ} {view : σ → Boot}

theorem funcubeFlash_eq (host : Endian) (path : String) (ctx : FlashContext) :
    funcubeFlash host path ctx = (fcdOpen (some path) >>= fun
      | none => .done (-1, ctx)
      | some fcd => do
        let result ← flashErase path fcd ctx
        let result ← flashWrite host path fcd ctx result
        let result ← flashVerify host path fcd ctx result
        fcdClose (some fcd)
        pure (result, ctx)) := rfl

/-- A message goes to the terminal and not to a dongle. -/
theorem complain_runs (h : Host σ) (s : σ) (result : Int) (text : String) :
    ∃ t es, Program.Runs h (complain result text) s () t es ∧ reports es = [] := by
  by_cases hr : result = 0
  · exact ⟨s, [], by simpa [complain, hr] using Program.Runs.done h () s, rfl⟩
  · refine ⟨(h (.print .stderr text) s).2, [⟨.print .stderr text, ()⟩], ?_, rfl⟩
    rw [complain, if_pos hr]
    exact .call (.done h _ _)

theorem complain_quiet {h : Host σ} {s t : σ} {result : Int} {text : String}
    {es : List Happening} (hsay : Program.Runs h (complain result text) s () t es) :
    reports es = [] := by
  obtain ⟨u, fs, hrun, hfs⟩ := complain_runs h s result text
  obtain ⟨-, -, rfl⟩ := hsay.unique hrun
  exact hfs

theorem reports_exchange (q : Request) (x : Exchange) :
    reports (x.events q) = if x = .notOpened then [] else [q.report] := by
  cases x <;> rfl

/-- The step that erases sends its request first of all, or fails. -/
theorem flashErase_runs (wipe : Plane UInt8 → Plane UInt8) (h : Host σ) (view : σ → Boot) (s : σ)
    (path : String) (fcd : Fcd) {ctx : FlashContext}
    (hw : ctx.wants actionErase = true) :
    ∃ result t es, Program.Runs h (flashErase path fcd ctx) s result t es ∧
      ((reports es = [] ∧ result ≠ 0) ∨ reports es = [(eraseRequest fcd).report]) ∧
      (Attached (Boot.serve wipe) h view → view t = view s ∨
        view t = { view s with flash := wipe (view s).flash }) := by
  let q := eraseRequest fcd
  have he := fcdBlEraseApplication_spec h s fcd
  obtain ⟨t, fs, hc, hfs⟩ := complain_runs h (converse h q s).2
    (toInt ((converse h q s).1.status q)) ("[" ++ path ++ "] erase failed\n")
  refine ⟨toInt ((converse h q s).1.status q), t, (converse h q s).1.events q ++ fs, ?_, ?_,
    fun a => ?_⟩
  · rw [flashErase, if_pos hw]
    exact he.bind (hc.bind_done rfl)
  · rw [reports_append, hfs, List.append_nil, reports_exchange]
    cases hx : (converse h q s).1 with
    | notOpened => exact .inl ⟨rfl, by simp [Exchange.status, Exchange.outcome, Except.map, toInt]⟩
    | notWritten dev count => exact .inr rfl
    | answered dev count received => exact .inr rfl
  · rw [a.quiet hc hfs]
    simpa [q, Boot.serve_erase] using a.converse q s

/-- The step that writes ends in an error when the range is refused, after asking
for the range at most. -/
theorem flashWrite_refused (a : Attached (Boot.serve wipe) h view) (s : σ) (host : Endian)
    (path : String) (fcd : Fcd) {ctx : FlashContext} (hw : ctx.wants actionWrite = true)
    (hs : ¬ Sane (view s).start (view s).stop ctx.size.toUInt32) (before : Int) :
    ∃ result t es, Program.Runs h (flashWrite host path fcd ctx before) s result t es ∧
      result ≠ 0 ∧ view t = view s ∧
      (reports es = [] ∨ (before = 0 ∧ reports es = [(rangeRequest fcd).report])) := by
  by_cases hb : before = 0
  · let q := rangeRequest fcd
    have hwrite : ∃ result, result ≠ 0 ∧
        Program.Runs h (fcdBlFlashWrite host (some fcd) ctx.image ctx.size.toUInt32) s result
          (converse h q s).2 ((converse h q s).1.events q) := by
      rcases sweep_stops_or_sane h s host fcd ctx.size.toUInt32 (writeBody fcd ctx.image) with
        ⟨result, hrun, hcode, -⟩ | ⟨start, stop, hx, hsane⟩
      · exact ⟨result, by omega, hrun⟩
      · obtain ⟨rfl, rfl⟩ := Boot.rangeIn_eq a hx
        exact absurd hsane hs
    obtain ⟨result, hne, hrun⟩ := hwrite
    obtain ⟨t, fs, hc, hfs⟩ := complain_runs h (converse h q s).2 result
      ("[" ++ path ++ "] write: " ++ errorMsg result ++ "\n")
    refine ⟨result, t, (converse h q s).1.events q ++ fs, ?_, hne, ?_, ?_⟩
    · rw [flashWrite, if_pos ⟨hb, hw⟩]
      exact hrun.bind (hc.bind_done rfl)
    · rw [a.quiet hc hfs, Boot.range_view a]
    · rw [reports_append, hfs, List.append_nil, reports_exchange]
      split
      · exact .inl rfl
      · exact .inr ⟨hb, rfl⟩
  · refine ⟨before, s, [], ?_, hb, rfl, .inl rfl⟩
    rw [flashWrite, if_neg (fun hc => hb hc.1)]
    exact .done h _ _

/-- What has become of the flash when a write is refused, and what was sent: `es`
by the step that erases, `fs` by the one that writes. -/
structure Spared (wipe : Plane UInt8 → Plane UInt8) (fcd : Fcd) (erase : Bool) (b b' : Boot)
    (es fs : List Happening) : Prop where
  kept : erase = false → reports es = [] ∧ b'.flash = b.flash
  erased : erase = true →
    (reports es = [] ∧ reports fs = [] ∨ reports es = [(eraseRequest fcd).report]) ∧
    (b'.flash = b.flash ∨ b'.flash = wipe b.flash)
  asked : reports fs = [] ∨ reports fs = [(rangeRequest fcd).report]

theorem Spared.report_eq {fcd : Fcd} {erase : Bool} {b b' : Boot} {es fs : List Happening}
    (hs : Spared wipe fcd erase b b' es fs) {report : Bytes}
    (hr : report ∈ reports es ++ reports fs) :
    (erase = true ∧ report = (eraseRequest fcd).report) ∨ report = (rangeRequest fcd).report := by
  rcases List.mem_append.mp hr with hr | hr
  · cases erase with
    | false => simp [(hs.kept rfl).1] at hr
    | true =>
      rcases (hs.erased rfl).1 with ⟨hes, -⟩ | hes
      · simp [hes] at hr
      · exact .inl ⟨rfl, by simpa [hes] using hr⟩
  · rcases hs.asked with hfs | hfs
    · simp [hfs] at hr
    · exact .inr (by simpa [hfs] using hr)

theorem erase_write_refused (a : Attached (Boot.serve wipe) h view) (s : σ) (host : Endian)
    (path : String) (fcd : Fcd) {ctx : FlashContext} (hw : ctx.wants actionWrite = true)
    (hs : ¬ Sane (view s).start (view s).stop ctx.size.toUInt32) :
    ∃ result t es fs, Program.Runs h (flashErase path fcd ctx >>= flashWrite host path fcd ctx) s
        result t (es ++ fs) ∧ result ≠ 0 ∧
      Spared wipe fcd (ctx.wants actionErase) (view s) (view t) es fs := by
  cases he : ctx.wants actionErase with
  | false =>
    obtain ⟨result, t, fs, hrun, hne, hview, hasked⟩ := flashWrite_refused a s host path fcd hw hs 0
    have hskip : flashErase path fcd ctx = .done 0 := by simp [flashErase, he]
    refine ⟨result, t, [], fs, by simpa [hskip] using hrun, hne, fun _ => ⟨rfl, by rw [hview]⟩,
      by simp, hasked.imp_right And.right⟩
  | true =>
    obtain ⟨before, u, es, herase, hsent, hflash⟩ :=
      flashErase_runs wipe h view s path fcd he
    have hflash := hflash a
    have hu : ¬ Sane (view u).start (view u).stop ctx.size.toUInt32 := by
      rcases hflash with hv | hv <;> rwa [hv]
    obtain ⟨result, t, fs, hrun, hne, hview, hasked⟩ := flashWrite_refused a u host path fcd hw hu
      before
    refine ⟨result, t, es, fs, herase.bind hrun, hne, by simp, fun _ => ⟨?_, ?_⟩,
      hasked.imp_right And.right⟩
    · refine hsent.imp_left (fun hes => ⟨hes.1, ?_⟩)
      exact hasked.resolve_right (fun hc => hes.2 hc.1)
    · rw [hview]
      exact hflash.imp (congrArg Boot.flash) (congrArg Boot.flash)

/-- A job that the write would refuse: no block is ever sent. An erase that was
asked for is a step of its own and has been sent before the write looks at the
range; without it nothing happens to the flash. -/
theorem funcubeFlash_refused (a : Attached (Boot.serve wipe) h view) (s : σ) (host : Endian)
    (path : String) (ctx : FlashContext) (hw : ctx.wants actionWrite = true)
    (hs : ¬ Sane (view s).start (view s).stop ctx.size.toUInt32) :
    ∃ (result : Int) (t : σ) (es : List Happening),
      Program.Runs h (funcubeFlash host path ctx) s (result, ctx) t es ∧ result ≠ 0 ∧
      (∀ report ∈ reports es, report.getD 1 0 ≠ fcdCmdWriteBlock) ∧
      (ctx.wants actionErase = false →
        (∀ report ∈ reports es, report.getD 1 0 ≠ fcdCmdEraseApplication) ∧
        (view t).flash = (view s).flash) ∧
      (ctx.wants actionErase = true →
        (reports es = [] ∨ ∃ rest, reports es = [0, fcdCmdEraseApplication] :: rest) ∧
        ((view t).flash = (view s).flash ∨ (view t).flash = wipe (view s).flash)) := by
  have hopen := fcdOpen_spec h path s
  have hattempt := a.quiet hopen (Opening.reports_events path _)
  rw [funcubeFlash_eq]
  cases hd : (attempt h path s).1.device path with
  | none =>
    rw [hd] at hopen
    refine ⟨-1, _, _, hopen.bind_done rfl, by decide, ?_⟩
    simp [hattempt]
  | some fcd =>
    rw [hd] at hopen
    rw [← hattempt] at hs
    obtain ⟨result, t, es, fs, hrun, hne, hspared⟩ :=
      erase_write_refused a (attempt h path s).2 host path fcd hw hs
    rw [hattempt] at hspared
    have hskip : flashVerify host path fcd ctx result = .done result := by
      simp [flashVerify, hne]
    obtain ⟨u, cs, hclose, hcs⟩ : ∃ u cs, Program.Runs h (fcdClose (some fcd)) t () u cs ∧
        reports cs = [] := ⟨_, _, fcdClose_spec h t fcd, rfl⟩
    have htail : Program.Runs h (flashVerify host path fcd ctx result >>= fun result => do
        fcdClose (some fcd)
        pure (result, ctx)) t (result, ctx) u cs := by
      rw [hskip]
      exact hclose.bind_done rfl
    have hrest := Program.Runs.bind (f := fun result => flashVerify host path fcd ctx result >>=
      fun result => do
        fcdClose (some fcd)
        pure (result, ctx)) hrun htail
    rw [bind_assoc] at hrest
    have hreports : reports ((attempt h path s).1.events path ++ (es ++ fs ++ cs)) =
        reports es ++ reports fs := by
      simp [hcs]
    refine ⟨result, u, _, hopen.bind hrest, hne, ?_⟩
    rw [hreports, a.quiet hclose hcs]
    refine ⟨fun report hr => ?_, fun he => ⟨fun report hr => ?_, (hspared.kept he).2⟩,
      fun he => ⟨?_, (hspared.erased he).2⟩⟩
    · rcases hspared.report_eq hr with ⟨-, rfl⟩ | rfl
      · change fcdCmdEraseApplication ≠ fcdCmdWriteBlock
        decide
      · change fcdCmdGetByteAddrRange ≠ fcdCmdWriteBlock
        decide
    · rcases hspared.report_eq hr with ⟨he', -⟩ | rfl
      · rw [he] at he'
        cases he'
      · change fcdCmdGetByteAddrRange ≠ fcdCmdEraseApplication
        decide
    · rcases (hspared.erased he).1 with ⟨hes, hfs⟩ | hes
      · exact .inl (by rw [hes, hfs]; rfl)
      · exact .inr ⟨reports fs, by rw [hes]; rfl⟩

/-- A job with an image too short for the range of the dongle. -/
def shortImage (actions : UInt32) : FlashContext :=
  ⟨actions, 2000, some ⟨1, List.replicate 10 7⟩, 10⟩

theorem funcubeFlash_refused_short_image :
    ∃ (result : Int) (t : Link Boot) (es : List Happening),
      Program.Runs (Link.host (Boot.serve (fun _ _ => 0xff)))
        (funcubeFlash .little "dongle" (shortImage actionWrite)) ⟨oneBlock, [], []⟩
        (result, shortImage actionWrite) t es ∧ result ≠ 0 ∧
      (∀ report ∈ reports es, report.getD 1 0 ≠ fcdCmdWriteBlock) ∧
      t.device.flash = oneBlock.flash := by
  obtain ⟨result, t, es, hrun, hne, hblocks, hkept, -⟩ := funcubeFlash_refused
    (Link.attached (Boot.serve (fun _ _ => 0xff))) ⟨oneBlock, [], []⟩ .little "dongle"
    (shortImage actionWrite) (by decide) (by decide)
  exact ⟨result, t, es, hrun, hne, hblocks, (hkept (by decide)).2⟩

/-- A dongle with an application in its flash. -/
def installed : Boot := { oneBlock with flash := fun _ => 7 }

/-- With both actions asked for, a short image is refused only after the
application has been erased. -/
theorem funcubeFlash_erases_before_refusing :
    let job := shortImage (actionErase ||| actionWrite)
    let h := Link.host (Boot.serve (fun _ _ => 0xff))
    ¬ Sane installed.start installed.stop job.size.toUInt32 ∧ job.wants actionWrite = true ∧
      reports (Program.events h (funcubeFlash .little "dongle" job) ⟨installed, [], []⟩) =
        [[0, fcdCmdEraseApplication], [0, fcdCmdGetByteAddrRange]] ∧
      (Program.run h (funcubeFlash .little "dongle" job) ⟨installed, [], []⟩).map
        (fun x => (x.1.1, x.2.device.flash 0)) = some (-3, 0xff) ∧ installed.flash 0 = 7 := by
  refine ⟨by decide, by decide, by decide, by decide, rfl⟩

end Libfcd.Proofs
