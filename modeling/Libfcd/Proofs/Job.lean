import Libfcd.Proofs.Codes
import Libfcd.Proofs.Refused
import Libfcd.Proofs.Steps
import Libfcd.Proofs.WriteEffect

namespace Libfcd.Proofs
open Interaction Memory Model Devices

variable {σ : Type}

/-- A step of a job and what it returned, or nothing if it was not taken. A
message may follow it. -/
inductive Taken (h : Host σ) (p : Hid Int) (s : σ) : Option Int → σ → List Happening → Prop where
  | skipped : Taken h p s none s []
  | taken (r : Int) (text : String) (u t : σ) (es ms : List Happening)
      (hrun : Program.Runs h p s r u es)
      (hsay : Program.Runs h (complain r text) u () t ms) : Taken h p s (some r) t (es ++ ms)

/-- `result = p(..); if (result) fprintf(..)` behind the condition of a step. -/
def guarded (wanted : Bool) (text : Int → String) (p : Hid Int) (before : Int) : Hid Int :=
  if before = 0 ∧ wanted then do
    let result ← p
    complain result (text result)
    pure result
  else pure before

/-- A step that is taken, with what it says of its result. -/
theorem guarded_runs {h : Host σ} {s u : σ} {p : Hid Int} {r : Int} {es : List Happening}
    (hrun : Program.Runs h p s r u es) {wanted : Bool} (hw : wanted = true) (text : Int → String) :
    ∃ t ms, Program.Runs h (guarded wanted text p 0) s r t (es ++ ms) ∧
      Program.Runs h (complain r (text r)) u () t ms := by
  obtain ⟨t, ms, hsay, -⟩ := complain_runs h u r (text r)
  refine ⟨t, ms, ?_, hsay⟩
  unfold guarded
  rw [if_pos ⟨rfl, hw⟩]
  exact hrun.bind (hsay.bind_done rfl)

theorem guarded_taken (h : Host σ) (s : σ) (wanted : Bool) (text : Int → String) {p : Hid Int}
    (hp : ∀ s, ∃ r t es, Program.Runs h p s r t es) (before : Int) :
    ∃ o t es, Program.Runs h (guarded wanted text p before) s (o.getD before) t es ∧
      Taken h p s o t es ∧ (o.isSome ↔ before = 0 ∧ wanted = true) := by
  by_cases hc : before = 0 ∧ wanted = true
  · obtain ⟨rfl, hw⟩ := hc
    obtain ⟨r, u, es, hrun⟩ := hp s
    obtain ⟨t, ms, hstep, hsay⟩ := guarded_runs hrun hw text
    exact ⟨some r, t, es ++ ms, hstep, .taken r (text r) u t es ms hrun hsay, by simpa using hw⟩
  · refine ⟨none, s, [], ?_, .skipped, by simpa using hc⟩
    unfold guarded
    rw [if_neg hc]
    exact .done h _ s

/-- What the result after a step tells of the ones so far. -/
theorem getD_eq_zero {o : Option Int} {before : Int} {wanted : Bool}
    (h : o.isSome ↔ before = 0 ∧ wanted = true) :
    o.getD before = 0 ↔ before = 0 ∧ (wanted = true → o = some 0) := by
  cases o with
  | none =>
    have hskip : before = 0 → ¬ wanted = true := by simpa using h
    exact ⟨fun hb => ⟨hb, fun hw => absurd hw (hskip hb)⟩, And.left⟩
  | some r =>
    obtain ⟨rfl, hw⟩ := h.mp rfl
    simp [hw]

/-- `fcd_bl_erase_application` with its result as an `int`. -/
def eraseStep (fcd : Fcd) : Hid Int := fcdBlEraseApplication (some fcd) >>= fun r => .done (toInt r)

theorem flashErase_eq (path : String) (fcd : Fcd) (ctx : FlashContext) :
    flashErase path fcd ctx = guarded (ctx.wants actionErase)
      (fun _ => "[" ++ path ++ "] erase failed\n") (eraseStep fcd) 0 := by
  unfold flashErase guarded eraseStep
  simp only [true_and, bind_assoc, Program.done_bind]

theorem flashWrite_eq (host : Endian) (path : String) (fcd : Fcd) (ctx : FlashContext) :
    flashWrite host path fcd ctx = guarded (ctx.wants actionWrite)
      (fun result => "[" ++ path ++ "] write: " ++ errorMsg result ++ "\n")
      (fcdBlFlashWrite host (some fcd) ctx.image ctx.size.toUInt32) := rfl

theorem flashVerify_eq (host : Endian) (path : String) (fcd : Fcd) (ctx : FlashContext) :
    flashVerify host path fcd ctx = guarded (ctx.wants actionVerify)
      (fun result => "[" ++ path ++ "] verify: " ++ errorMsg result ++ "\n")
      (fcdBlFlashVerify host (some fcd) ctx.image ctx.size.toUInt32) := rfl

/-- The exchanges of a step that was taken, and nothing else on the wire. `Q` says which
they are and what they come to. -/
def StepCourse (Q : Int → List Transaction → Prop) (o : Option Int) (es : List Happening) : Prop :=
  match o with
  | none => es = []
  | some r => ∃ ts ms, Q r ts ∧ es = ts.flatMap Transaction.events ++ ms ∧ reports ms = []

theorem Taken.course {h : Host σ} {p : Hid Int} {s t : σ} {o : Option Int} {es : List Happening}
    {Q : Int → List Transaction → Prop}
    (hp : ∃ r u ts, Program.Runs h p s r u (ts.flatMap Transaction.events) ∧ Q r ts)
    (ht : Taken h p s o t es) : StepCourse Q o es := by
  cases ht with
  | skipped => rfl
  | taken r text u t es ms hrun hsay =>
    obtain ⟨r', u', ts, hrun', hQ⟩ := hp
    obtain ⟨rfl, rfl, rfl⟩ := hrun.unique hrun'
    exact ⟨ts, ms, hQ, rfl, complain_quiet hsay⟩

/-- The exchange of an erase. -/
inductive EraseCourse (fcd : Fcd) : Int → List Transaction → Prop where
  | exchange (x : Exchange) :
      EraseCourse fcd (toInt (x.status (eraseRequest fcd))) [⟨eraseRequest fcd, x⟩]

/-- The exchanges of a write: the range, its start, and the blocks of the image. -/
def WriteCourse (fcd : Fcd) (ctx : FlashContext) (r : Int) (ts : List Transaction) : Prop :=
  ∃ x y, Pass fcd ctx.size.toUInt32 x y
    (fun start k => blockRequest fcd (imageBlock ctx.image start k)) (judgeWrite fcd ctx.image) r ts

/-- Those of a verification, which reads the blocks. -/
def VerifyCourse (fcd : Fcd) (ctx : FlashContext) (r : Int) (ts : List Transaction) : Prop :=
  ∃ x y, Pass fcd ctx.size.toUInt32 x y (fun _ _ => readRequest fcd) (judgeRead fcd ctx.image) r ts

/-- The steps on a dongle that was opened, one behind the other, all they do, and their
requests. -/
def Steps (h : Host σ) (host : Endian) (ctx : FlashContext) (s t : σ)
    (erase write verify : Option Int) (es : List Happening) (fcd : Fcd) : Prop :=
  ∃ s1 s2 as bs cs, Taken h (eraseStep fcd) s erase s1 as ∧
    Taken h (fcdBlFlashWrite host (some fcd) ctx.image ctx.size.toUInt32) s1 write s2 bs ∧
    Taken h (fcdBlFlashVerify host (some fcd) ctx.image ctx.size.toUInt32) s2 verify t cs ∧
    es = as ++ (bs ++ cs) ∧
    StepCourse (EraseCourse fcd) erase as ∧ StepCourse (WriteCourse fcd ctx) write bs ∧
    StepCourse (VerifyCourse fcd ctx) verify cs

/-- Which steps of a job are taken, and when it succeeds. -/
structure Gated (ctx : FlashContext) (erase write verify : Option Int) (result : Int) : Prop where
  erase_taken : erase.isSome ↔ ctx.wants actionErase = true
  write_taken : write.isSome ↔
    ctx.wants actionWrite = true ∧ (ctx.wants actionErase = true → erase = some 0)
  verify_taken : verify.isSome ↔ ctx.wants actionVerify = true ∧
    (ctx.wants actionErase = true → erase = some 0) ∧
    (ctx.wants actionWrite = true → write = some 0)
  success : result = 0 ↔ (ctx.wants actionErase = true → erase = some 0) ∧
    (ctx.wants actionWrite = true → write = some 0) ∧
    (ctx.wants actionVerify = true → verify = some 0)

theorem gated_steps (h : Host σ) (s : σ) (host : Endian) (path : String) (fcd : Fcd)
    {ctx : FlashContext} (hfit : ctx.size.toUInt32.toNat ≤ ctx.image.length) :
    ∃ erase write verify result t es,
      Program.Runs h (flashErase path fcd ctx >>= fun result =>
        flashWrite host path fcd ctx result >>= flashVerify host path fcd ctx) s result t es ∧
      Steps h host ctx s t erase write verify es fcd ∧ Gated ctx erase write verify result := by
  have herase : ∀ s, ∃ r t ts, Program.Runs h (eraseStep fcd) s r t
      (ts.flatMap Transaction.events) ∧ EraseCourse fcd r ts := by
    intro s
    let x := converse h (eraseRequest fcd) s
    have hrun : Program.Runs h (eraseStep fcd) s (toInt (x.1.status (eraseRequest fcd))) x.2
        (([⟨eraseRequest fcd, x.1⟩] : List Transaction).flatMap Transaction.events) := by
      rw [List.flatMap_singleton]
      exact (fcdBlEraseApplication_spec h s fcd).bind_done rfl
    exact ⟨_, _, _, hrun, .exchange x.1⟩
  have hwrite : ∀ s, ∃ r t ts, Program.Runs h
      (fcdBlFlashWrite host (some fcd) ctx.image ctx.size.toUInt32) s r t
        (ts.flatMap Transaction.events) ∧ WriteCourse fcd ctx r ts := by
    intro s
    obtain ⟨r, t, ts, hrun, hpass⟩ := fcdBlFlashWrite_pass h s host fcd hfit
    exact ⟨r, t, ts, hrun, _, _, hpass⟩
  have hverify : ∀ s, ∃ r t ts, Program.Runs h
      (fcdBlFlashVerify host (some fcd) ctx.image ctx.size.toUInt32) s r t
        (ts.flatMap Transaction.events) ∧ VerifyCourse fcd ctx r ts := by
    intro s
    obtain ⟨r, t, ts, hrun, hpass⟩ := fcdBlFlashVerify_pass h s host fcd hfit
    exact ⟨r, t, ts, hrun, _, _, hpass⟩
  have hruns : ∀ {p : Hid Int} {Q : Int → List Transaction → Prop},
      (∀ s, ∃ r t ts, Program.Runs h p s r t (ts.flatMap Transaction.events) ∧ Q r ts) →
        ∀ s, ∃ r t es, Program.Runs h p s r t es := by
    intro p Q hp s
    obtain ⟨r, t, ts, hrun, -⟩ := hp s
    exact ⟨r, t, _, hrun⟩
  rw [flashErase_eq, flashWrite_eq, flashVerify_eq]
  obtain ⟨erase, s1, as, ha, hta, hea⟩ := guarded_taken h s (ctx.wants actionErase)
    (fun _ => "[" ++ path ++ "] erase failed\n") (hruns herase) 0
  obtain ⟨write, s2, bs, hb, htb, hwb⟩ := guarded_taken h s1 (ctx.wants actionWrite)
    (fun result => "[" ++ path ++ "] write: " ++ errorMsg result ++ "\n") (hruns hwrite)
    (erase.getD 0)
  obtain ⟨verify, t, cs, hc, htc, hvc⟩ := guarded_taken h s2 (ctx.wants actionVerify)
    (fun result => "[" ++ path ++ "] verify: " ++ errorMsg result ++ "\n") (hruns hverify)
    (write.getD (erase.getD 0))
  refine ⟨erase, write, verify, _, t, _, ha.bind (hb.bind hc),
    ⟨s1, s2, as, bs, cs, hta, htb, htc, rfl, hta.course (herase s), htb.course (hwrite s1),
      htc.course (hverify s2)⟩, ?_⟩
  have h0 := getD_eq_zero hea
  have h1 := getD_eq_zero hwb
  have h2 := getD_eq_zero hvc
  rw [eq_self, true_and] at h0 hea
  rw [h0] at h1 hwb
  rw [h1] at h2 hvc
  exact ⟨hea, by rw [hwb, and_comm], by rw [hvc, and_comm], by rw [h2, and_assoc]⟩

theorem StepCourse.commands {Q : Int → List Transaction → Prop} {o : Option Int}
    {es : List Happening} {cmds : List UInt8} (hQ : ∀ r ts, Q r ts →
      ∀ report ∈ reports (ts.flatMap Transaction.events), report.getD 1 0 ∈ cmds)
    (hc : StepCourse Q o es) : ∀ report ∈ reports es, o.isSome ∧ report.getD 1 0 ∈ cmds := by
  cases o with
  | none =>
    obtain rfl : es = [] := hc
    simp [reports]
  | some r =>
    obtain ⟨ts, ms, hr, rfl, hms⟩ := hc
    intro report hreport
    rw [reports_append, hms, List.append_nil] at hreport
    exact ⟨rfl, hQ r ts hr report hreport⟩

/-- The commands of a pass: the two before the blocks and that of the blocks. -/
theorem Pass.commands {dev : Fcd} {size : UInt32} {x : Exchange} {y : UInt32 → Exchange}
    {req : UInt32 → Nat → Request} {judge : UInt32 → Nat → Exchange → Option Int} {result : Int}
    {ts : List Transaction} (h : Pass dev size x y req judge result ts) {c : UInt8}
    (hreq : ∀ start k, (req start k).command = c) :
    ∀ report ∈ reports (ts.flatMap Transaction.events),
      report.getD 1 0 ∈ [fcdCmdGetByteAddrRange, fcdCmdSetByteAddr, c] := by
  have hts : ∀ t ∈ ts, t.request.command ∈ [fcdCmdGetByteAddrRange, fcdCmdSetByteAddr, c] := by
    have hrange : (rangeRequest dev).command = fcdCmdGetByteAddrRange := rfl
    have haddress : ∀ start, (addressRequest dev start).command = fcdCmdSetByteAddr := fun _ => rfl
    cases h with
    | noRange hx => simp [hrange]
    | refused start stop hx hs => simp [hrange]
    | noAddress start stop hx hs hy => simp [hrange, haddress]
    | blocks start stop hx hs hy left us hr =>
      have hus : ∀ u ∈ us, u.request.command = c := by
        intro u hu
        obtain ⟨k, hk⟩ := List.mem_iff_getElem?.mp hu
        rw [hr.request hk, hreq]
      simp only [List.forall_mem_cons]
      exact ⟨by simp [hrange], by simp [haddress], fun u hu => by simp [hus u hu]⟩
  intro report hr
  rw [reports_transactions] at hr
  obtain ⟨t, ht, rfl⟩ := List.mem_map.mp hr
  exact hts t (List.mem_filter.mp ht).1

/-- Every report belongs to a step that was asked for. -/
def Asked (ctx : FlashContext) (report : Bytes) : Prop :=
  (ctx.wants actionErase = true ∧ report.getD 1 0 ∈ [fcdCmdEraseApplication]) ∨
  (ctx.wants actionWrite = true ∧
    report.getD 1 0 ∈ [fcdCmdGetByteAddrRange, fcdCmdSetByteAddr, fcdCmdWriteBlock]) ∨
  (ctx.wants actionVerify = true ∧
    report.getD 1 0 ∈ [fcdCmdGetByteAddrRange, fcdCmdSetByteAddr, fcdCmdReadBlock])

/-- A job that neither erases nor writes has no report that does. -/
theorem Asked.harmless {ctx : FlashContext} {report : Bytes} (h : Asked ctx report)
    (he : ctx.wants actionErase = false) (hw : ctx.wants actionWrite = false) :
    report.getD 1 0 ≠ fcdCmdEraseApplication ∧ report.getD 1 0 ≠ fcdCmdWriteBlock := by
  simp only [Asked, he, hw, Bool.false_eq_true, false_and, false_or] at h
  generalize report.getD 1 0 = cmd at h
  obtain ⟨-, hcmd⟩ := h
  simp only [List.mem_cons, List.not_mem_nil, or_false] at hcmd
  rcases hcmd with rfl | rfl | rfl <;> decide

theorem Steps.asked {h : Host σ} {host : Endian} {ctx : FlashContext} {s t : σ}
    {erase write verify : Option Int} {result : Int} {es : List Happening} {fcd : Fcd}
    (hs : Steps h host ctx s t erase write verify es fcd)
    (hg : Gated ctx erase write verify result) : ∀ report ∈ reports es, Asked ctx report := by
  obtain ⟨s1, s2, as, bs, cs, -, -, -, rfl, ha, hb, hc⟩ := hs
  rw [reports_append, reports_append]
  refine List.forall_mem_append.mpr ⟨fun report hr => ?_,
    List.forall_mem_append.mpr ⟨fun report hr => ?_, fun report hr => ?_⟩⟩
  · have herased : ∀ r ts, EraseCourse fcd r ts →
        ∀ report ∈ reports (ts.flatMap Transaction.events),
          report.getD 1 0 ∈ [fcdCmdEraseApplication] := by
      rintro r ts ⟨x⟩ report hreport
      rw [reports_transactions] at hreport
      obtain ⟨t, ht, rfl⟩ := List.mem_map.mp hreport
      obtain rfl := List.mem_singleton.mp (List.mem_filter.mp ht).1
      simp [eraseRequest, fcdCmdEraseApplication]
    have hcmd := ha.commands herased report hr
    exact .inl ⟨hg.erase_taken.mp hcmd.1, hcmd.2⟩
  · have hcmd := hb.commands (fun r ts hpass => hpass.elim fun x hx => hx.elim fun y hxy =>
      hxy.commands (fun _ _ => rfl)) report hr
    exact .inr (.inl ⟨(hg.write_taken.mp hcmd.1).1, hcmd.2⟩)
  · have hcmd := hc.commands (fun r ts hpass => hpass.elim fun x hx => hx.elim fun y hxy =>
      hxy.commands (fun _ _ => rfl)) report hr
    exact .inr (.inr ⟨(hg.verify_taken.mp hcmd.1).1, hcmd.2⟩)

section
variable {wipe : Plane UInt8 → Plane UInt8} {h : Host σ} {view : σ → Boot}

/-- A write that returns 0 leaves the image in the flash. -/
theorem write_matches (a : Attached (Boot.serve wipe) h view) {s t : σ} {host : Endian} {dev : Fcd}
    {data : Bytes} {size : UInt32} (hsize : size.toNat ≤ data.length) {es : List Happening}
    (hrun : Program.Runs h (fcdBlFlashWrite host (some dev) data size) s 0 t es) :
    (view t).Matches data := by
  obtain ⟨result, u, ts, hrun', hp⟩ := write_progress a s host dev hsize
  obtain ⟨rfl, rfl, -⟩ := hrun.unique hrun'
  cases hp with
  | untouched hr hb => omega
  | interrupted hr hs hk hb => omega
  | complete hr hs hb =>
    rw [hb]
    exact written_matches (view s) hs hsize

theorem Pass.sane_of_zero {dev : Fcd} {size : UInt32} {x : Exchange} {y : UInt32 → Exchange}
    {req : UInt32 → Nat → Request} {judge : UInt32 → Nat → Exchange → Option Int}
    {ts : List Transaction} (h : Pass dev size x y req judge 0 ts) :
    ∃ start stop, rangeIn dev x = some (start, stop) ∧ Sane start stop size := by
  generalize hr : (0 : Int) = result at h
  cases h with
  | noRange hx => omega
  | refused start stop hx hs =>
    have := refusal_range start stop
    omega
  | noAddress start stop hx hs hy => omega
  | blocks start stop hx hs hy left us hrounds => exact ⟨start, stop, hx, hs⟩

/-- The flash is left as it was by a verification, and is the image's if that returns 0. -/
theorem verify_matches (a : Attached (Boot.serve wipe) h view) {s t : σ} {host : Endian} {dev : Fcd}
    {data : Bytes} {size : UInt32} (hsize : size.toNat ≤ data.length) {es : List Happening}
    (hrun : Program.Runs h (fcdBlFlashVerify host (some dev) data size) s 0 t es) :
    (view t).Matches data := by
  obtain ⟨result, u, ts, hrun', hpass⟩ := fcdBlFlashVerify_pass h s host dev hsize
  obtain ⟨rfl, rfl, -⟩ := hrun.unique hrun'
  obtain ⟨start, stop, hx, hs⟩ := hpass.sane_of_zero
  obtain ⟨rfl, rfl⟩ := Boot.rangeIn_eq a hx
  obtain ⟨result, u, us, hrun', hflash, hd⟩ := verify_runs a s host dev hsize hs
  obtain ⟨rfl, rfl, -⟩ := hrun.unique hrun'
  have hmatch := (Boot.matches_iff hs hsize).mpr (hd.zero rfl)
  have hstart : (view t).start = (view s).start :=
    a.run_keeps (P := fun b => b.start = (view s).start)
      (fun report b hb => (Boot.serve_start wipe report b).trans hb) hrun rfl
  have hstop : (view t).stop = (view s).stop :=
    a.run_keeps (P := fun b => b.stop = (view s).stop)
      (fun report b hb => (Boot.serve_stop wipe report b).trans hb) hrun rfl
  unfold Boot.Matches at hmatch ⊢
  rwa [hflash, hstart, hstop]

theorem Taken.quiet (a : Attached (Boot.serve wipe) h view) {p : Hid Int} {s t : σ} {r : Int}
    {es : List Happening} (ht : Taken h p s (some r) t es) :
    ∃ u fs, Program.Runs h p s r u fs ∧ view t = view u := by
  cases ht with
  | taken r text u t es ms hrun hsay => exact ⟨u, es, hrun, a.quiet hsay (complain_quiet hsay)⟩

/-- A job that wrote or verified with success leaves the image in the flash. -/
theorem Steps.matches (a : Attached (Boot.serve wipe) h view) {host : Endian} {ctx : FlashContext}
    {s t : σ} {erase write verify : Option Int} {result : Int} {es : List Happening} {fcd : Fcd}
    (hfit : ctx.size.toUInt32.toNat ≤ ctx.image.length)
    (hs : Steps h host ctx s t erase write verify es fcd)
    (hg : Gated ctx erase write verify result) (hr : result = 0)
    (hw : ctx.wants actionWrite = true ∨ ctx.wants actionVerify = true) :
    (view t).Matches ctx.image := by
  obtain ⟨s1, s2, as, bs, cs, ha, hb, hc, rfl, -⟩ := hs
  obtain ⟨-, hwrite, hverify⟩ := hg.success.mp hr
  cases hv : ctx.wants actionVerify with
  | true =>
    obtain rfl := hverify hv
    obtain ⟨u, fs, hrun, hview⟩ := hc.quiet a
    rw [hview]
    exact verify_matches a hfit hrun
  | false =>
    have hskip : verify = none := by
      rw [← Option.not_isSome_iff_eq_none, hg.verify_taken, hv]
      simp
    subst hskip
    cases hc
    obtain rfl := hwrite (hw.resolve_right (by simp [hv]))
    obtain ⟨u, fs, hrun, hview⟩ := hb.quiet a
    rw [hview]
    exact write_matches a hfit hrun

end

/-- The course of a job: with the dongle that was opened, or none. -/
def JobRuns (h : Host σ) (host : Endian) (ctx : FlashContext) (s t : σ) (result : Int)
    (es : List Happening) : Option Fcd → Prop
  | none => result = -1 ∧ es = []
  | some fcd => ∃ erase write verify,
      Steps h host ctx s t erase write verify es fcd ∧ Gated ctx erase write verify result

/-- What a job does for a dongle: its steps in order, each behind those before it
and none that was not asked for. If it returns 0 with a step that looks at the
flash, that is the image's. -/
theorem funcubeFlash_job (h : Host σ) (s : σ) (host : Endian) (path : String) (ctx : FlashContext)
    (hlen : ctx.image.length = ctx.size.toNat) :
    ∃ (result : Int) (u t : σ) (es closes : List Happening),
      Program.Runs h (funcubeFlash host path ctx) s (result, ctx) t
        ((attempt h path s).1.events path ++ (es ++ closes)) ∧
      reports ((attempt h path s).1.events path) = [] ∧ reports closes = [] ∧
      JobRuns h host ctx (attempt h path s).2 u result es ((attempt h path s).1.device path) ∧
      (∀ report ∈ reports es, Asked ctx report ∧
        (ctx.wants actionErase = false → ctx.wants actionWrite = false →
          report.getD 1 0 ≠ fcdCmdEraseApplication ∧ report.getD 1 0 ≠ fcdCmdWriteBlock)) ∧
      ∀ (wipe : Plane UInt8 → Plane UInt8) (view : σ → Boot), Attached (Boot.serve wipe) h view →
        result = 0 → ctx.wants actionWrite = true ∨ ctx.wants actionVerify = true →
        (view t).Matches ctx.image := by
  have hfit := size_le_image hlen
  have hopen := fcdOpen_spec h path s
  have hquiet := Opening.reports_events path (attempt h path s).1
  rw [funcubeFlash_eq]
  cases hd : (attempt h path s).1.device path with
  | none =>
    rw [hd] at hopen
    refine ⟨-1, (attempt h path s).2, (attempt h path s).2, [], [], ?_, hquiet, rfl, ⟨rfl, rfl⟩,
      by simp [reports], by simp⟩
    rw [List.append_nil, List.append_nil]
    exact hopen.bind_done rfl
  | some fcd =>
    rw [hd] at hopen
    obtain ⟨erase, write, verify, result, u, es, hrun, hsteps, hgated⟩ :=
      gated_steps h (attempt h path s).2 host path fcd hfit
    obtain ⟨v, cs, hclose, hcs⟩ : ∃ v cs, Program.Runs h (fcdClose (some fcd)) u () v cs ∧
        reports cs = [] := ⟨_, _, fcdClose_spec h u fcd, rfl⟩
    have htail : Program.Runs h (flashErase path fcd ctx >>= fun result =>
        flashWrite host path fcd ctx result >>= fun result =>
        flashVerify host path fcd ctx result >>= fun result => do
          fcdClose (some fcd)
          pure (result, ctx)) (attempt h path s).2 (result, ctx) v (es ++ cs) := by
      have := Program.Runs.bind (f := fun result => do
          fcdClose (some fcd)
          pure (result, ctx)) hrun (hclose.bind_done rfl)
      simpa only [bind_assoc] using this
    refine ⟨result, u, v, es, cs, hopen.bind htail, hquiet, hcs,
      ⟨erase, write, verify, hsteps, hgated⟩, ?_, ?_⟩
    · intro report hr
      have hasked := hsteps.asked hgated report hr
      exact ⟨hasked, hasked.harmless⟩
    · intro wipe view a hr hw
      rw [a.quiet hclose hcs]
      exact hsteps.matches a hfit hgated hr hw

/-- The whole job on a dongle with an application, every exchange of it well. -/
theorem funcubeFlash_job_installed :
    let job : FlashContext :=
      ⟨actionErase ||| actionWrite ||| actionVerify, 2000, some ⟨1, List.replicate 48 9⟩, 48⟩
    let h := Link.host (Boot.serve (fun _ _ => 0xff))
    ∃ (t : Link Boot) (es : List Happening),
      Program.Runs h (funcubeFlash .little "dongle" job) ⟨installed, [], []⟩ (0, job) t es ∧
      ¬ installed.Matches (List.replicate 48 9) ∧ t.device.Matches (List.replicate 48 9) ∧
      reports es = [[0, 24], [0, 26], [0, 25, 0, 0, 0, 0], 0 :: 27 :: 0 :: List.replicate 48 9,
        [0, 26], [0, 25, 0, 0, 0, 0], [0, 28]] := by
  intro job h
  obtain ⟨result, u, t, es, closes, hrun, -, -, -, -, hmatch⟩ :=
    funcubeFlash_job h ⟨installed, [], []⟩ .little "dongle" job (by decide)
  have hended : (Program.run h (funcubeFlash .little "dongle" job) ⟨installed, [], []⟩).map
      (·.1.1) = some 0 := by decide +kernel
  rw [hrun.run] at hended
  obtain rfl : result = 0 := Option.some.inj hended
  refine ⟨t, _, hrun, by decide +kernel, ?_, ?_⟩
  · exact hmatch _ Link.device (Link.attached (Boot.serve (fun _ _ => 0xff))) rfl (.inl (by decide))
  · rw [← hrun.events]
    decide +kernel

end Libfcd.Proofs
