import Libfcd.Proofs.Loading
import Libfcd.Proofs.Steps
import Libfcd.Proofs.Traversal

namespace Libfcd.Proofs
open Interaction Memory Model Devices

variable {σ : Type}

/-- The context that `main` goes to the dongles with, or the status it stops with
before that. `es` are the events until then. -/
inductive Preparation (operands : List String)
    (parsed : Except Int (FlashContext × Option String)) (es : List Happening) :
    Except Int FlashContext → Prop where
  | rejected (status : Int) (hp : parsed = .error status) :
      Preparation operands parsed es (.error status)
  | operand (x : FlashContext × Option String) (hp : parsed = .ok x) (ho : operands ≠ []) :
      Preparation operands parsed es (.error exitFailure)
  | idle (ctx : FlashContext) (filename : Option String) (hp : parsed = .ok (ctx, filename))
      (ha : ctx.actions = 0) : Preparation operands parsed es (.error exitFailure)
  | noFile (ctx : FlashContext) (hp : parsed = .ok (ctx, none))
      (hw : ctx.wants (actionWrite ||| actionVerify) = true) :
      Preparation operands parsed es (.error exitFailure)
  | unread (ctx : FlashContext) (name : String) (hp : parsed = .ok (ctx, some name))
      (hw : ctx.wants (actionWrite ||| actionVerify) = true)
      (hl : ∀ image size, ¬ Loaded name image size es) :
      Preparation operands parsed es (.error exitFailure)
  | loaded (ctx : FlashContext) (name : String) (image : Image) (size : UInt64)
      (hp : parsed = .ok (ctx, some name)) (ho : operands = []) (ha : ctx.actions ≠ 0)
      (hw : ctx.wants (actionWrite ||| actionVerify) = true) (hl : Loaded name image size es) :
      Preparation operands parsed es (.ok { ctx with data := some image, size })
  | plain (ctx : FlashContext) (filename : Option String) (hp : parsed = .ok (ctx, filename))
      (ho : operands = []) (ha : ctx.actions ≠ 0)
      (hw : ctx.wants (actionWrite ||| actionVerify) = false) :
      Preparation operands parsed es (.ok ctx)

/-- The request of a reset. -/
def resetRequest (dev : Fcd) (cmd : UInt8) : Request := ⟨dev.path, [0, cmd], 2⟩

/-- The events of a reset: one exchange with a dongle that could be opened. -/
def resetEvents (path : String) (cmd : UInt8) (o : Opening) (x : Exchange) : List Happening :=
  match o.device path with
  | none => o.events path
  | some dev => o.events path ++ (x.events (resetRequest dev cmd) ++
      [⟨.free dev.pathAddr, ()⟩, ⟨.free dev.addr, ()⟩])

theorem fcdReset_runs (h : Host σ) (path : String) (cmd : UInt8) (s : σ) :
    ∃ x t, Program.Runs h (fcdReset path cmd) s (0, cmd) t
      (resetEvents path cmd (attempt h path s).1 x) := by
  have hopen := fcdOpen_spec h path s
  cases hd : (attempt h path s).1.device path with
  | none =>
    rw [hd] at hopen
    refine ⟨.notOpened, (attempt h path s).2, ?_⟩
    simp only [resetEvents, hd]
    exact hopen.bind_done rfl
  | some dev =>
    rw [hd] at hopen
    let s1 := (attempt h path s).2
    let s2 := (converse h (resetRequest dev cmd) s1).2
    have hset := fcdSet_spec h s1 dev cmd none 0 (by simp) (by simp) (by simp)
    have hclose := fcdClose_spec h s2 dev
    refine ⟨(converse h (resetRequest dev cmd) s1).1,
      (h (.free dev.addr) (h (.free dev.pathAddr) s2).2).2, ?_⟩
    simp only [resetEvents, hd]
    exact hopen.bind (hset.bind (hclose.bind_done rfl))

/-- A visit that resets. -/
def IsReset (cmd : UInt8) (v : Visit) : Prop :=
  v.result = 0 ∧ ∃ o x, v.events = resetEvents v.path cmd o x

/-- All dongles with a path are visited and reset, if that was asked for. -/
def ResetPhase (cmd : UInt8) (wanted : Bool) (es : List Happening) : Prop :=
  if wanted then
    ∃ devs vs fs sleeps, es = ⟨.hidEnumerate fcdUsbVid fcdUsbPid, devs⟩ :: fs ++
        [⟨.hidFreeEnumeration devs, ()⟩] ++ sleeps ∧
      Tour devs devs.paths vs 0 fs ∧ vs.map Visit.path = devs.paths.reduceOption ∧
      (∀ v ∈ vs, IsReset cmd v) ∧ ∀ e ∈ sleeps, Offline e
  else es = []

theorem msSleep_settles (h : Host σ) (ms : UInt32) :
    Program.Settles h Offline (msSleep ms) (fun _ => True) := by
  refine (Program.Settles.loop (fun t _ => ?_) _ _).bind (fun t _ => ?_)
  · apply (Program.Settles.perform (fun _ => rfl)).bind
    intro _ _
    exact (Program.Settles.perform (fun _ => rfl)).bind (fun _ _ => .done trivial)
  · cases t with
    | inl e => exact nomatch e
    | inr t => exact .perform (fun _ => rfl)

theorem resetAll_runs (h : Host σ) (s : σ) (cmd : UInt8) (context : FlashContext)
    (reset : UInt32 → Hid Unit) (hreset : ∀ delayMs, reset delayMs = (do
      let _ ← fcdForEach fcdReset cmd
      msSleep delayMs)) :
    ∃ t es, Program.Runs h (resetAll context reset) s () t es ∧
      ResetPhase cmd (context.wants actionReset) es := by
  cases hw : context.wants actionReset with
  | false => exact ⟨s, [], by simpa [resetAll, hw] using Program.Runs.done h () s, rfl⟩
  | true =>
    have hfn : ∀ path s, ∃ v t, v.path = path ∧ IsReset cmd v ∧
        Program.Runs h (fcdReset path cmd) s (v.result, cmd) t v.events := by
      intro path s
      obtain ⟨x, t, hrun⟩ := fcdReset_runs h path cmd s
      exact ⟨⟨path, 0, resetEvents path cmd (attempt h path s).1 x⟩, t, rfl, ⟨rfl, _, x, rfl⟩, hrun⟩
    obtain ⟨devs, vs, result, t, fs, hrun, htour, hall⟩ := fcdForEach_tour hfn s
    obtain ⟨u, v, sleeps, hsleep, -, hoff⟩ := msSleep_settles h context.delay t
    have hzero : result = 0 := by
      by_contra hne
      obtain ⟨front, v, rfl, hv, -⟩ := htour.result_ne_zero hne
      exact hne (hv ▸ (hall v (by simp)).1)
    refine ⟨v, _, ?_, devs, vs, fs, sleeps, rfl, hzero ▸ htour, (htour.result_eq_zero hzero).1,
      hall, hoff⟩
    rw [resetAll, if_pos hw, hreset]
    exact hrun.bind hsleep

/-- A visit that took the steps for a dongle. -/
def IsFlash (h : Host σ) (host : Endian) (ctx : FlashContext) (v : Visit) : Prop :=
  (∃ s t, Program.Runs h (funcubeFlash host v.path ctx) s (v.result, ctx) t v.events) ∧
    ∀ report ∈ reports v.events, report.getD 1 0 ∈ flashCommands

/-- The dongles with a path take their steps in order, up to one that fails. -/
def FlashPhase (h : Host σ) (host : Endian) (ctx : FlashContext) (status : Int)
    (es : List Happening) : Prop :=
  ∃ devs vs result fs, es = ⟨.hidEnumerate fcdUsbVid fcdUsbPid, devs⟩ :: fs ++
      [⟨.hidFreeEnumeration devs, ()⟩] ∧
    Tour devs devs.paths vs result fs ∧ (∀ v ∈ vs, IsFlash h host ctx v) ∧
    vs.map Visit.path <+: devs.paths.reduceOption ∧
    (status = exitSuccess → vs.map Visit.path = devs.paths.reduceOption) ∧
    (status = exitFailure ↔ ∃ v ∈ vs, v.result ≠ 0) ∧ (status = exitSuccess ∨ status = exitFailure)

/-- The exit status says whether some visit failed. -/
theorem exit_status {devs : DeviceList} {vs : List Visit} {result : Int} {fs : List Happening}
    (h : Tour devs devs.paths vs result fs) {status : Int}
    (hs : status = if result ≠ 0 then exitFailure else exitSuccess) :
    (status = exitSuccess → vs.map Visit.path = devs.paths.reduceOption) ∧
      (status = exitFailure ↔ ∃ v ∈ vs, v.result ≠ 0) ∧
      (status = exitSuccess ∨ status = exitFailure) := by
  subst hs
  by_cases hr : result = 0
  · obtain ⟨hpaths, hall⟩ := h.result_eq_zero hr
    simpa [hr, exitSuccess, exitFailure, hpaths] using hall
  · obtain ⟨front, v, rfl, hv, -⟩ := h.result_ne_zero hr
    rw [if_pos hr]
    exact ⟨fun hc => absurd hc (by decide), iff_of_true rfl ⟨v, by simp, hv ▸ hr⟩, .inr rfl⟩

theorem exit_success {devs : DeviceList} {vs : List Visit} {result : Int} {fs : List Happening}
    (h : Tour devs devs.paths vs result fs) {status : Int}
    (hs : status = if result ≠ 0 then exitFailure else exitSuccess) :
    status = exitSuccess ↔ ∀ v ∈ vs, v.result = 0 := by
  obtain ⟨-, hfailed, hstatus⟩ := exit_status h hs
  rcases hstatus with rfl | rfl
  · simpa [exitSuccess, exitFailure] using hfailed
  · simpa [exitSuccess, exitFailure] using hfailed

/-- The whole of `main` from the first reset on. -/
def Course (h : Host σ) (host : Endian) (ctx : FlashContext) (status : Int)
    (es : List Happening) : Prop :=
  ∃ enter flash leave rest, es = enter ++ (flash ++ (leave ++ rest)) ∧
    ResetPhase fcdCmdResetBootloader (ctx.wants actionReset) enter ∧
    FlashPhase h host ctx status flash ∧
    ResetPhase fcdCmdResetApplication (ctx.wants actionReset) leave ∧
    ∀ e ∈ rest, Offline e

/-- Wanting some of the flags is wanting one of all. -/
theorem wants_of_and {ctx : FlashContext} {flags all : UInt32} (h : all &&& flags = flags)
    (hw : ctx.wants flags = true) : ctx.wants all = true := by
  simp only [FlashContext.wants, ne_eq, decide_not, Bool.not_eq_true', decide_eq_false_iff_not]
    at hw ⊢
  intro hall
  rw [← h, ← UInt32.and_assoc, hall, UInt32.zero_and] at hw
  exact hw rfl

/-- Where a step writes or verifies, there is an image that was read to its end. -/
theorem Preparation.image_loaded {operands : List String}
    {parsed : Except Int (FlashContext × Option String)} {es : List Happening} {ctx : FlashContext}
    (h : Preparation operands parsed es (.ok ctx))
    (hw : ctx.wants (actionWrite ||| actionVerify) = true) :
    ∃ name image, ctx.data = some image ∧ Loaded name image ctx.size es := by
  cases h with
  | loaded ctx name image size hp ho ha hw hl => exact ⟨name, image, rfl, hl⟩
  | plain ctx filename hp ho ha hw' =>
    rw [hw] at hw'
    cases hw'

/-- It is as long as its size says, and the size as an `unsigned int` is no more
than that. -/
theorem image_covers {operands : List String} {parsed : Except Int (FlashContext × Option String)}
    {es : List Happening} {ctx : FlashContext} (h : Preparation operands parsed es (.ok ctx))
    (hw : ctx.wants (actionWrite ||| actionVerify) = true) :
    ctx.size.toUInt32.toNat ≤ ctx.image.length := by
  obtain ⟨name, image, hdata, hl⟩ := h.image_loaded hw
  apply size_le_image
  rw [FlashContext.image, hdata, Option.map_some, Option.getD_some, hl.length]

theorem flashAll_runs (h : Host σ) (s : σ) (host : Endian) (ctx : FlashContext)
    (hwrite : ctx.wants actionWrite → ctx.size.toUInt32.toNat ≤ ctx.image.length)
    (hverify : ctx.wants actionVerify → ctx.size.toUInt32.toNat ≤ ctx.image.length) :
    ∃ status t es, Program.Runs h (flashAll host ctx) s status t es ∧
      Course h host ctx status es := by
  have hfn : ∀ path s, ∃ v t, v.path = path ∧ IsFlash h host ctx v ∧
      Program.Runs h (funcubeFlash host path ctx) s (v.result, ctx) t v.events := by
    intro path s
    obtain ⟨⟨result, ctx'⟩, t, es, hrun, rfl, hes⟩ :=
      funcubeFlash_settles h host path hwrite hverify s
    exact ⟨⟨path, result, es⟩, t, rfl, ⟨⟨s, t, hrun⟩, sends_reports hes⟩, hrun⟩
  obtain ⟨s1, enter, henter, hphase⟩ := resetAll_runs h s fcdCmdResetBootloader ctx
    fcdResetBootloader (fun _ => rfl)
  obtain ⟨devs, vs, result, s2, fs, hrun, htour, hall⟩ := fcdForEach_tour hfn s1
  obtain ⟨s3, leave, hleave, hphase'⟩ := resetAll_runs h s2 fcdCmdResetApplication ctx
    fcdResetApplication (fun _ => rfl)
  have hrest : Program.Settles h Offline (releaseImage ctx) (fun _ => True) := by
    unfold releaseImage
    split
    · exact .perform (fun _ => rfl)
    · exact .done trivial
  obtain ⟨u, s4, rest, hfree, -, hoff⟩ := hrest s3
  refine ⟨if result ≠ 0 then exitFailure else exitSuccess, s4, _,
    henter.bind (hrun.bind (hleave.bind (hfree.bind_done rfl))),
    enter, _, leave, rest, rfl, hphase, ⟨devs, vs, result, fs, rfl, htour, hall,
      htour.prefix_paths, exit_status htour rfl⟩, hphase', hoff⟩

/-- Messages before it do not matter to a preparation. -/
theorem Preparation.append {operands : List String}
    {parsed : Except Int (FlashContext × Option String)} {pre es : List Happening}
    {prepared : Except Int FlashContext} (h : Preparation operands parsed es prepared)
    (hpre : ∀ e ∈ pre, Printed e) : Preparation operands parsed (pre ++ es) prepared := by
  cases h with
  | rejected status hp => exact .rejected status hp
  | operand x hp ho => exact .operand x hp ho
  | idle ctx filename hp ha => exact .idle ctx filename hp ha
  | noFile ctx hp hw => exact .noFile ctx hp hw
  | unread ctx name hp hw hl =>
    exact .unread ctx name hp hw (fun image size h =>
      hl image size ((loaded_append hpre name image size).mp h))
  | loaded ctx name image size hp ho ha hw hl =>
    exact .loaded ctx name image size hp ho ha hw ((loaded_append hpre name image size).mpr hl)
  | plain ctx filename hp ho ha hw => exact .plain ctx filename hp ho ha hw

/-- `main` behind its option loop. -/
def proceed (host : Endian) (operands : List String) :
    Except Int (FlashContext × Option String) → Hid Int
  | .error status => pure status
  | .ok (context, filename) =>
    match operands with
    | operand :: _ => do
      print .stderr ("extra operand: " ++ operand ++ "\n")
      die
    | [] =>
      if context.actions = 0 then do
        print .stderr "Nothing to do\n"
        die
      else if context.wants (actionWrite ||| actionVerify) then
        match filename with
        | none => do
          print .stderr "No image file specfied\n"
          die
        | some filename => do
          match ← readImage filename context with
          | none => pure exitFailure
          | some context => flashAll host context
      else flashAll host context

theorem fcdFlashMain_eq (host : Endian) (getoptLong : List String → List Parsed × List String)
    (argv : List String) : fcdFlashMain host getoptLong argv =
      parseOptions (getoptLong argv).1 ⟨0, 2000, none, 0⟩ none >>=
        proceed host (getoptLong argv).2 := rfl

/-- A message and the end. -/
theorem stop_runs (h : Host σ) (s : σ) (text : String) :
    ∃ t es, Program.Runs h (print .stderr text >>= fun _ => die) s exitFailure t es ∧
      ∀ e ∈ es, Offline e := by
  obtain ⟨status, t, es, hrun, rfl, hes⟩ :=
    (print_settles h .stderr text).bind (fun _ _ => die_settles h) s
  exact ⟨t, es, hrun, fun e he => (hes e he).offline⟩

/-- What follows on a preparation. -/
def Outcome (h : Host σ) (host : Endian) (status : Int) (es : List Happening) :
    Except Int FlashContext → Prop
  | .error e => status = e ∧ es = []
  | .ok ctx => Course h host ctx status es

/-- A context with which `main` turns to the dongles. -/
theorem flashAll_prepared (h : Host σ) (s : σ) (host : Endian) {operands : List String}
    {parsed : Except Int (FlashContext × Option String)} {es : List Happening}
    {ctx : FlashContext} (hp : Preparation operands parsed es (.ok ctx)) :
    ∃ status t fs, Program.Runs h (flashAll host ctx) s status t fs ∧
      Course h host ctx status fs :=
  flashAll_runs h s host ctx
    (fun hw => image_covers hp (wants_of_and (by decide) hw))
    (fun hw => image_covers hp (wants_of_and (by decide) hw))

theorem proceed_runs (h : Host σ) (s : σ) (host : Endian) (operands : List String)
    (parsed : Except Int (FlashContext × Option String)) :
    ∃ status t pre es prepared,
      Program.Runs h (proceed host operands parsed) s status t (pre ++ es) ∧
      Preparation operands parsed pre prepared ∧ (∀ e ∈ pre, Offline e) ∧
      Outcome h host status es prepared := by
  rcases parsed with status | ⟨ctx, filename⟩
  · exact ⟨status, s, [], [], .error status, .done h _ s, .rejected status rfl, by simp, rfl, rfl⟩
  cases operands with
  | cons operand rest =>
    obtain ⟨t, pre, hrun, hoff⟩ := stop_runs h s ("extra operand: " ++ operand ++ "\n")
    exact ⟨exitFailure, t, pre, [], .error exitFailure, by simpa [proceed] using hrun,
      .operand _ rfl (by simp), hoff, rfl, rfl⟩
  | nil =>
    by_cases ha : ctx.actions = 0
    · obtain ⟨t, pre, hrun, hoff⟩ := stop_runs h s "Nothing to do\n"
      exact ⟨exitFailure, t, pre, [], .error exitFailure, by simpa [proceed, ha] using hrun,
        .idle ctx filename rfl ha, hoff, rfl, rfl⟩
    cases hw : ctx.wants (actionWrite ||| actionVerify) with
    | false =>
      have hp : Preparation [] (.ok (ctx, filename)) [] (.ok ctx) :=
        .plain ctx filename rfl rfl ha hw
      obtain ⟨status, t, fs, hrun, hcourse⟩ := flashAll_prepared h s host hp
      exact ⟨status, t, [], fs, .ok ctx, by simpa [proceed, ha, hw] using hrun, hp, by simp,
        hcourse⟩
    | true =>
      cases filename with
      | none =>
        obtain ⟨t, pre, hrun, hoff⟩ := stop_runs h s "No image file specfied\n"
        exact ⟨exitFailure, t, pre, [], .error exitFailure, by simpa [proceed, ha, hw] using hrun,
          .noFile ctx rfl hw, hoff, rfl, rfl⟩
      | some name =>
        obtain ⟨r, t, pre, hread, hoff, hr⟩ := readImage_runs h s name ctx
        have heq : proceed host [] (.ok (ctx, some name)) = (readImage name ctx >>= fun
            | none => pure exitFailure
            | some context => flashAll host context) := by
          simp [proceed, ha, hw]
        rw [heq]
        cases r with
        | none =>
          refine ⟨exitFailure, t, pre, [], .error exitFailure, ?_, .unread ctx name rfl hw hr,
            hoff, rfl, rfl⟩
          rw [List.append_nil]
          exact hread.bind_done rfl
        | some ctx' =>
          obtain ⟨image, size, hl, rfl⟩ := hr
          have hp : Preparation [] (.ok (ctx, some name)) pre
              (.ok { ctx with data := some image, size }) :=
            .loaded ctx name image size rfl rfl ha hw hl
          obtain ⟨status, u, fs, hrun, hcourse⟩ := flashAll_prepared h t host hp
          exact ⟨status, u, pre, fs, _, hread.bind hrun, hp, hoff, hcourse⟩

/-- The tool's whole run, for every argument vector, file and population of
dongles: what it settles before it turns to the dongles, and what comes then. If
it stops before that nothing is ever sent, and a step that writes or verifies has
an image that was read to its end. -/
theorem fcdFlashMain_course (h : Host σ) (s : σ) (host : Endian)
    (getoptLong : List String → List Parsed × List String) (argv : List String) :
    ∃ (status : Int) (t : σ) (prelude es : List Happening)
      (parsed : Except Int (FlashContext × Option String)) (prepared : Except Int FlashContext),
      Program.Runs h (fcdFlashMain host getoptLong argv) s status t (prelude ++ es) ∧
      (∃ u fs, Program.Runs h (parseOptions (getoptLong argv).1 ⟨0, 2000, none, 0⟩ none) s parsed
        u fs) ∧
      Preparation (getoptLong argv).2 parsed prelude prepared ∧ (∀ e ∈ prelude, Offline e) ∧
      Outcome h host status es prepared ∧
      (∀ e, prepared = .error e → reports (prelude ++ es) = []) ∧
      (∀ ctx, prepared = .ok ctx → ctx.wants (actionWrite ||| actionVerify) = true →
        ∃ name image, ctx.data = some image ∧ Loaded name image ctx.size prelude) := by
  obtain ⟨parsed, s1, fs, hparse, -, hprinted⟩ :=
    parseOptions_settles h (getoptLong argv).1 ⟨0, 2000, none, 0⟩ none s
  obtain ⟨status, t, pre, es, prepared, hrun, hprep, hoff, hout⟩ :=
    proceed_runs h s1 host (getoptLong argv).2 parsed
  have hprelude : ∀ e ∈ fs ++ pre, Offline e :=
    List.forall_mem_append.mpr ⟨fun e he => (hprinted e he).offline, hoff⟩
  refine ⟨status, t, fs ++ pre, es, parsed, prepared, ?_, ⟨s1, fs, hparse⟩,
    hprep.append hprinted, hprelude, hout, ?_, ?_⟩
  · rw [fcdFlashMain_eq, List.append_assoc]
    exact hparse.bind hrun
  · rintro e rfl
    obtain ⟨-, rfl⟩ := hout
    rw [List.append_nil]
    exact reports_offline hprelude
  · rintro ctx rfl hw
    exact (hprep.append hprinted).image_loaded hw

end Libfcd.Proofs
