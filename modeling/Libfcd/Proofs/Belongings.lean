import Libfcd.Proofs.Dealings
import Libfcd.Proofs.Handles
import Libfcd.Proofs.Prepare
import Libfcd.Proofs.Refused

namespace Libfcd.Proofs
open Interaction Memory Model Devices

/-- The heap blocks that a process has been given and not given back, and the
files it has open. -/
structure Belongings where
  blocks : Multiset Nat
  files : Multiset Nat
  deriving DecidableEq

section
variable {P : Call → Prop} (hsay : ∀ stream text, P (.print stream text))

/-- Options that were parsed, without an image yet. -/
def Unloaded (parsed : Except Int (FlashContext × Option String)) : Prop :=
  ∀ x, parsed = .ok x → x.1.data = none

include hsay in
theorem putLines_confined (lines : List String) :
    Program.Confined P (putLines lines) (fun _ => True) := by
  induction lines with
  | nil => trivial
  | cons line rest ih => exact .perform (hsay _ _) (fun _ => ih)

include hsay in
/-- The option loop writes messages, and does not touch the image. -/
theorem handleOption_confined (option : Parsed) {ctx : FlashContext} (hctx : ctx.data = none)
    (filename : Option String) :
    Program.Confined P (handleOption option ctx filename) Unloaded := by
  have hok : ∀ {ctx' : FlashContext} {name : Option String}, ctx'.data = none →
      Unloaded (.ok (ctx', name)) := by
    intro ctx' name h _ heq
    cases heq
    exact h
  have herror : ∀ status, Unloaded (.error status) := by
    intro status _ heq
    cases heq
  obtain ⟨c, optarg⟩ := option
  cases c with
  | reset =>
    cases optarg with
    | none => exact hok hctx
    | some optarg =>
      simp only [handleOption]
      split
      · exact hok hctx
      · exact .perform (hsay _ _) (fun _ => .perform (hsay _ _) (fun _ => herror _))
  | help =>
    have husage : Program.Confined P usage (fun _ => True) :=
      (putLines_confined hsay _).bind (fun _ _ => trivial)
    exact husage.bind (fun _ _ => herror _)
  | version => exact .perform (hsay _ _) (fun _ => herror _)
  | other => exact .perform (hsay _ _) (fun _ => herror _)
  | _ => exact hok hctx

include hsay in
theorem parseOptions_confined (options : List Parsed) {ctx : FlashContext} (hctx : ctx.data = none)
    (filename : Option String) :
    Program.Confined P (parseOptions options ctx filename) Unloaded := by
  induction options generalizing ctx filename with
  | nil =>
    intro _ heq
    cases heq
    exact hctx
  | cons option rest ih =>
    apply (handleOption_confined hsay option hctx filename).bind
    intro r hr
    cases r with
    | error status => rintro _ ⟨⟩
    | ok x => exact ih (hr x rfl) x.2

end

/-- A call that has to do with the user, with the heap or with a file. -/
def Errand : Call → Prop
  | .print .. | .perror _ | .malloc _ | .free _ | .fopen _ | .fseek .. | .ftell _ | .fread ..
  | .fclose _ => True
  | _ => False

section
variable {P : Call → Prop} (hP : ∀ c, Errand c → P c)

include hP in
theorem fsize_confined (file : Nat) : Program.Confined P (fsize file) (fun _ => True) := by
  refine .perform (hP _ trivial) (fun (moved : Int) => ?_)
  split
  · trivial
  · refine .perform (hP _ trivial) (fun (size : Int) => ?_)
    split
    · trivial
    · refine .perform (hP _ trivial) (fun (back : Int) => ?_)
      split
      · trivial
      · trivial

include hP in
theorem freadAll_confined (file : Nat) : Program.Confined P (freadAll file) (fun _ => True) := by
  apply (fsize_confined hP file).bind
  intro size _
  split
  · trivial
  · refine .perform (hP _ trivial) (fun (buffer : Option Nat) => ?_)
    cases buffer with
    | none => trivial
    | some buffer =>
      refine .perform (hP _ trivial) (fun bytes => ?_)
      split
      · trivial
      · exact .perform (hP _ trivial) (fun _ => trivial)

include hP in
theorem readImage_confined (name : String) (ctx : FlashContext) :
    Program.Confined P (readImage name ctx) (fun _ => True) := by
  refine .perform (hP _ trivial) (fun (file : Option Nat) => ?_)
  cases file with
  | none => exact .perform (hP _ trivial) (fun _ => trivial)
  | some file =>
    apply Program.Confined.bind (freadAll_confined hP file)
    intro contents _
    refine .perform (hP _ trivial) (fun _ => ?_)
    cases contents with
    | none => exact .perform (hP _ trivial) (fun _ => trivial)
    | some x => trivial

include hP in
/-- Nothing is asked of a dongle before the image is there. -/
theorem prepareMain_confined (getoptLong : List String → List Parsed × List String)
    (argv : List String) :
    Program.Confined P (prepareMain getoptLong argv) (fun _ => True) := by
  have hstop : ∀ text, Program.Confined P (stop text) (fun _ => True) := fun _ =>
    .perform (hP _ trivial) (fun _ => .perform (hP _ trivial) (fun _ => trivial))
  apply (parseOptions_confined (fun _ _ => hP _ trivial) _ rfl none).bind
  rintro (status | ⟨ctx, filename⟩) _
  · trivial
  cases (getoptLong argv).2 with
  | cons operand rest => exact hstop _
  | nil =>
    simp only [prepare]
    split
    · exact hstop _
    · split
      · cases filename with
        | none => exact hstop _
        | some name =>
          refine (readImage_confined hP name ctx).bind (fun r _ => ?_)
          cases r with
          | none => trivial
          | some ctx => trivial
      · trivial

end

/-- The steps for a dongle hand their context on. -/
theorem funcubeFlash_context (host : Endian) (path : String) (ctx : FlashContext) :
    Program.Confined (fun _ => True) (funcubeFlash host path ctx) (fun r => r.2 = ctx) := by
  rw [funcubeFlash_eq]
  apply (Program.Confined.any _).bind
  intro fcd _
  cases fcd with
  | none => rfl
  | some fcd =>
    apply (Program.Confined.any _).bind
    intro _ _
    apply (Program.Confined.any _).bind
    intro _ _
    apply (Program.Confined.any _).bind
    intro _ _
    exact (Program.Confined.any _).bind (fun _ _ => rfl)

theorem visitEach_context {γ : Type} {fn : String → γ → Hid (Int × γ)} {context : γ}
    (hfn : ∀ path, Program.Confined (fun _ => True) (fn path context) (fun r => r.2 = context))
    (devs : DeviceList) (paths : List (Option String)) :
    Program.Confined (fun _ => True) (visitEach fn devs paths context)
      (fun r => r.2 = context) := by
  induction paths with
  | nil => rfl
  | cons path rest ih =>
    have hvisit : Program.Confined (fun _ => True) (visitPath fn path context)
        (fun r => r.2 = context) := by
      cases path with
      | none => rfl
      | some path => exact hfn path
    refine .perform trivial (fun _ => hvisit.bind ?_)
    rintro ⟨result, _⟩ rfl
    dsimp only
    split
    · rfl
    · exact .perform trivial (fun _ => ih)

theorem fcdForEach_context {γ : Type} {fn : String → γ → Hid (Int × γ)} {context : γ}
    (hfn : ∀ path, Program.Confined (fun _ => True) (fn path context) (fun r => r.2 = context)) :
    Program.Confined (fun _ => True) (fcdForEach fn context) (fun r => r.2 = context) := by
  refine .perform trivial (fun devs => (visitEach_context hfn devs _).bind (fun r hr => ?_))
  exact .perform trivial (fun _ => hr)

namespace Belongings

def empty : Belongings := ⟨0, 0⟩

/-- The rules for blocks and files: what is freed or closed is there, and so is a
file that is used. -/
def watch : Watch Call Call.Answer Belongings := fun w e =>
  match e with
  | ⟨.malloc _, addr⟩ => some ⟨(Option.toList addr : Multiset Nat) + w.blocks, w.files⟩
  | ⟨.strdup .., addr⟩ => some ⟨(Option.toList addr : Multiset Nat) + w.blocks, w.files⟩
  | ⟨.free addr, _⟩ => if addr ∈ w.blocks then some ⟨w.blocks.erase addr, w.files⟩ else none
  | ⟨.fopen _, file⟩ => some ⟨w.blocks, (Option.toList file : Multiset Nat) + w.files⟩
  | ⟨.fseek file _, _⟩ | ⟨.ftell file, _⟩ | ⟨.fread file _, _⟩ =>
    if file ∈ w.files then some w else none
  | ⟨.fclose file, _⟩ => if file ∈ w.files then some ⟨w.blocks, w.files.erase file⟩ else none
  | _ => some w

/-- With these blocks besides. -/
def hold (w : Belongings) (blocks : List Nat) : Belongings := ⟨blocks + w.blocks, w.files⟩

def useFile (w : Belongings) (file : Nat) : Belongings := ⟨w.blocks, file ::ₘ w.files⟩

@[simp] theorem hold_nil (w : Belongings) : w.hold [] = w := by simp [hold]

@[simp] theorem watch_malloc (w : Belongings) (size : Nat) (addr : Option Nat) :
    watch w ⟨.malloc size, addr⟩ = some (w.hold addr.toList) := rfl

@[simp] theorem watch_strdup (w : Belongings) (text : String) (entry : Option DeviceList)
    (addr : Option Nat) : watch w ⟨.strdup text entry, addr⟩ = some (w.hold addr.toList) := rfl

@[simp] theorem watch_free (w : Belongings) (addr : Nat) (rest : List Nat) :
    watch (w.hold (addr :: rest)) ⟨.free addr, ()⟩ = some (w.hold rest) := by
  simp [watch, hold, ← Multiset.cons_coe]

@[simp] theorem watch_fopen (w : Belongings) (name : String) :
    watch w ⟨.fopen name, (none : Option Nat)⟩ = some w := by
  simp [watch]

@[simp] theorem watch_fseek (w : Belongings) (file : Nat) (whence : Whence) (r : Int) :
    watch (w.useFile file) ⟨.fseek file whence, r⟩ = some (w.useFile file) := by
  simp [watch, useFile]

@[simp] theorem watch_ftell (w : Belongings) (file : Nat) (r : Int) :
    watch (w.useFile file) ⟨.ftell file, r⟩ = some (w.useFile file) := by
  simp [watch, useFile]

@[simp] theorem watch_fread (w : Belongings) (file size : Nat) (r : Bytes) :
    watch (w.useFile file) ⟨.fread file size, r⟩ = some (w.useFile file) := by
  simp [watch, useFile]

@[simp] theorem watch_fclose (w : Belongings) (file : Nat) :
    watch (w.useFile file) ⟨.fclose file, ()⟩ = some w := by
  simp [watch, useFile]

theorem hold_hold (w : Belongings) (xs ys : List Nat) :
    (w.hold xs).hold ys = w.hold (ys ++ xs) := by
  simp [hold, ← Multiset.coe_add, add_assoc]

/-- Blocks that lie beside make no difference. -/
theorem watch_beside {e : Happening} {w w' : Belongings} (h : watch w e = some w')
    (blocks : Multiset Nat) :
    watch ⟨blocks + w.blocks, w.files⟩ e = some ⟨blocks + w'.blocks, w'.files⟩ := by
  obtain ⟨c, r⟩ := e
  have hgiven : ∀ {addr : Option Nat} {w' : Belongings},
      some (⟨(addr.toList : Multiset Nat) + w.blocks, w.files⟩ : Belongings) = some w' →
      some (⟨(addr.toList : Multiset Nat) + (blocks + w.blocks), w.files⟩ : Belongings) =
        some ⟨blocks + w'.blocks, w'.files⟩ := by
    intro addr _ heq
    cases heq
    rw [add_left_comm]
  have hused : ∀ {file : Nat} {u : Belongings},
      (if file ∈ w.files then some u else none) = some w' →
      file ∈ w.files ∧ u = w' := by
    intro file u hu
    split at hu
    · exact ⟨‹_›, Option.some.inj hu⟩
    · cases hu
  cases c with
  | malloc size => exact hgiven h
  | strdup text entry => exact hgiven h
  | free addr =>
    simp only [watch] at h ⊢
    split at h
    · rename_i hmem
      obtain rfl := Option.some.inj h
      rw [if_pos (Multiset.mem_add.mpr (.inr hmem)), Multiset.erase_add_right_pos _ hmem]
    · cases h
  | fopen name =>
    obtain rfl := Option.some.inj h
    rfl
  | fseek file whence =>
    obtain ⟨hmem, rfl⟩ := hused h
    exact if_pos hmem
  | ftell file =>
    obtain ⟨hmem, rfl⟩ := hused h
    exact if_pos hmem
  | fread file size =>
    obtain ⟨hmem, rfl⟩ := hused h
    exact if_pos hmem
  | fclose file =>
    obtain ⟨hmem, rfl⟩ := hused h
    exact if_pos hmem
  | _ =>
    obtain rfl := Option.some.inj h
    rfl

/-- A call that has to do with neither blocks nor files. -/
def Apart (c : Call) : Prop := ∀ r w, watch w ⟨c, r⟩ = some w

/-- No block and no file more than before, and none less. -/
abbrev Even {α : Type} (p : Hid α) : Prop := Program.Neutral watch (fun _ => True) p

variable {α β : Type}

theorem Even.call {c : Call} (hc : Apart c) : Even (Program.perform c) :=
  .perform (fun w r _ => hc r w)

theorem Even.deals {dev : Fcd} {p : Hid α} (hp : Deals.Only dev p) : Even p := by
  have hconf : Program.Confined Apart p (fun _ => True) := by
    refine hp.confined (fun c hc => ?_) (fun _ _ => rfl) (fun _ _ _ _ => rfl)
    cases c <;> first | exact fun _ _ => rfl | cases hc
  exact hconf.neutral (fun _ hc r w _ => hc r w)

/-- The blocks of an open device, in the order in which they are freed. -/
def blocksOf : Option Fcd → List Nat
  | some dev => [dev.pathAddr, dev.addr]
  | none => []

theorem fcdClose_frees (fcd : Option Fcd) (w : Belongings) :
    Program.Obeys watch (fcdClose fcd) (w.hold (blocksOf fcd)) (fun _ w' => w' = w) := by
  cases fcd with
  | none => exact hold_nil w
  | some dev =>
    exact fun _ => ⟨_, watch_free w dev.pathAddr [dev.addr], fun _ =>
      ⟨_, watch_free w dev.addr [], hold_nil w⟩⟩

/-- The block of a copied path, if there is one. -/
def blockOf (kept : Option (String × Option Nat)) : List Nat := (kept.bind Prod.snd).toList

theorem keepPath_holds (addr : Nat) (kept : Option (String × Option Nat)) (w : Belongings) :
    Program.Obeys watch (keepPath addr kept) (w.hold (blockOf kept ++ [addr]))
      (fun fcd w' => w' = w.hold (blocksOf fcd)) := by
  rcases kept with _ | ⟨path, _ | pathAddr⟩
  · exact fun _ => ⟨_, watch_free w addr [], rfl⟩
  · exact fun _ => ⟨_, watch_free w addr [], rfl⟩
  · rfl

theorem copyFirst_holds (devs : DeviceList) (w : Belongings) :
    Program.Obeys watch (copyFirst devs) w (fun kept w' => w' = w.hold (blockOf kept)) := by
  unfold copyFirst
  split
  · exact fun _ => ⟨w, rfl, fun copy => ⟨_, watch_strdup w _ _ copy, rfl⟩⟩
  · exact fun _ => ⟨w, rfl, (hold_nil w).symm⟩
  · exact (hold_nil w).symm

/-- A device that was opened holds two blocks, and a failure none. -/
theorem fcdOpen_holds (path : Option String) (w : Belongings) :
    Program.Obeys watch (fcdOpen path) w (fun fcd w' => w' = w.hold (blocksOf fcd)) := by
  intro addr
  refine ⟨_, watch_malloc w 8 addr, ?_⟩
  cases addr with
  | none => rfl
  | some addr =>
    cases path with
    | none =>
      refine fun devs => ⟨_, rfl, (copyFirst_holds devs _).bind ?_⟩
      intro kept _ heq
      subst heq
      refine fun _ => ⟨_, rfl, ?_⟩
      rw [Option.toList_some, hold_hold]
      exact keepPath_holds addr kept w
    | some path =>
      intro handle
      refine ⟨_, rfl, ?_⟩
      cases handle with
      | none => exact fun _ => ⟨_, rfl, keepPath_holds addr none w⟩
      | some dev =>
        refine fun copy => ⟨_, watch_strdup _ path none copy, fun _ => ⟨_, rfl, ?_⟩⟩
        rw [Option.toList_some, hold_hold]
        exact keepPath_holds addr (some (path, copy)) w

/-- A device that is dealt with and closed. -/
theorem closes (dev : Fcd) {body : Hid β} {finish : β → Hid α} (hbody : Even body)
    (hfinish : ∀ r, Even (finish r)) (w : Belongings) :
    Program.Obeys watch (body >>= fun r => fcdClose (some dev) >>= fun _ => finish r)
      (w.hold (blocksOf (some dev))) (fun _ w' => w' = w) := by
  apply (hbody _ trivial).bind
  intro r _ heq
  subst heq
  apply (fcdClose_frees (some dev) w).bind
  intro _ _ heq
  subst heq
  exact hfinish r _ trivial

theorem Even.device {path : Option String} {rest : Option Fcd → Hid α} (hnone : Even (rest none))
    (hsome : ∀ dev w, Program.Obeys watch (rest (some dev)) (w.hold (blocksOf (some dev)))
      (fun _ w' => w' = w)) : Even (fcdOpen path >>= rest) := by
  intro w _
  apply (fcdOpen_holds path w).bind
  intro fcd _ heq
  subst heq
  cases fcd with
  | none =>
    rw [blocksOf, hold_nil]
    exact hnone w trivial
  | some dev => exact hsome dev w

theorem Even.visitEach {γ : Type} {fn : String → γ → Hid (Int × γ)}
    (hfn : ∀ path context, Even (fn path context)) (devs : DeviceList)
    (paths : List (Option String)) (context : γ) : Even (visitEach fn devs paths context) := by
  induction paths generalizing context with
  | nil => exact .done _
  | cons path rest ih =>
    refine (Even.call (fun _ _ => rfl)).bind (fun _ => .bind ?_ (fun r => ?_))
    · cases path with
      | none => exact .done _
      | some path => exact hfn path context
    · dsimp only
      split
      · exact .done _
      · exact (Even.call (fun _ _ => rfl)).bind (fun _ => ih _)

theorem Even.fcdForEach {γ : Type} {fn : String → γ → Hid (Int × γ)}
    (hfn : ∀ path context, Even (fn path context)) (context : γ) :
    Even (fcdForEach fn context) := by
  refine (Even.call (fun _ _ => rfl)).bind (fun devs => ?_)
  refine (Even.visitEach hfn devs _ context).bind (fun result => ?_)
  exact (Even.call (fun _ _ => rfl)).bind (fun _ => .done _)

theorem Even.usleep (us : UInt32) : Even (usleep us) := .call (fun _ _ => rfl)

theorem Even.msSleep (ms : UInt32) : Even (msSleep ms) := by
  refine (Program.Neutral.loop (fun t => ?_) _ _ _ _).bind (fun t => ?_)
  · exact (usleep _).bind (fun _ => (usleep _).bind (fun _ => .done _))
  · cases t with
    | inl e => exact nomatch e
    | inr t => exact usleep _

theorem Even.fcdReset (path : String) (context : UInt8) : Even (fcdReset path context) :=
  .device (.done _) (fun dev => closes dev (.deals (Deals.fcdSet dev _ none 0)) (fun _ => .done _))

theorem Even.resetAll (context : FlashContext) (cmd : UInt8) {reset : UInt32 → Hid Unit}
    (hreset : ∀ delayMs, reset delayMs = (do
      let _ ← Model.fcdForEach Model.fcdReset cmd
      Model.msSleep delayMs)) : Even (resetAll context reset) := by
  unfold Model.resetAll
  split
  · rw [hreset]
    exact (fcdForEach fcdReset cmd).bind (fun _ => msSleep _)
  · exact .done _

theorem Even.funcubeFlash (host : Endian) (path : String) (ctx : FlashContext) :
    Even (funcubeFlash host path ctx) := by
  rw [funcubeFlash_eq]
  refine Even.device (.done _) (fun dev w => ?_)
  have h := closes dev (.deals (Deals.steps host dev path ctx))
    (fun result => .done (result, ctx)) w
  simpa only [bind_assoc, Program.pure_eq] using h

theorem Even.funcubeDebug (host : Endian) (query : Bytes) (path : String) (context : Unit) :
    Even (funcubeDebug host query path context) :=
  .device ((Even.call (fun _ _ => rfl)).bind (fun _ => .done _))
    (fun dev => closes dev (.deals (Deals.diagnose host dev query path)) (fun _ => .done _))

/-- The block of an image. -/
def imageOf (ctx : FlashContext) : List Nat := (ctx.data.map Image.addr).toList

theorem fsize_uses (file : Nat) (w : Belongings) :
    Program.Obeys watch (fsize file) (w.useFile file) (fun _ w' => w' = w.useFile file) := by
  refine .perform (fun (moved : Int) => ⟨_, watch_fseek w file .stop moved, ?_⟩)
  split
  · rfl
  · refine .perform (fun (size : Int) => ⟨_, watch_ftell w file size, ?_⟩)
    split
    · rfl
    · refine .perform (fun (back : Int) => ⟨_, watch_fseek w file .set back, ?_⟩)
      split
      · rfl
      · rfl

/-- The block of what was read. -/
def readOf (contents : Option (Image × UInt64)) : List Nat :=
  (contents.map (fun x => x.1.addr)).toList

/-- A file that was read holds one block, and a failure none. -/
theorem freadAll_holds (file : Nat) (w : Belongings) :
    Program.Obeys watch (freadAll file) (w.useFile file)
      (fun contents w' => w' = (w.hold (readOf contents)).useFile file) := by
  apply (fsize_uses file w).bind
  intro size _ heq
  subst heq
  split
  · exact congrArg (useFile · file) (hold_nil w).symm
  · refine .perform (fun (buffer : Option Nat) => ⟨_, watch_malloc _ _ buffer, ?_⟩)
    cases buffer with
    | none => rfl
    | some buffer =>
      refine .perform (fun bytes => ⟨_, watch_fread (w.hold [buffer]) file _ bytes, ?_⟩)
      split
      · rfl
      · exact .perform (fun _ => ⟨_, watch_free (w.useFile file) buffer [], rfl⟩)

theorem readImage_holds (name : String) (ctx : FlashContext) (w : Belongings) :
    Program.Obeys watch (readImage name ctx) w
      (fun r w' => w' = w.hold ((r.map imageOf).getD [])) := by
  refine .perform (fun (file : Option Nat) => ?_)
  cases file with
  | none => exact ⟨w, watch_fopen w name, .perform (fun _ => ⟨w, rfl, (hold_nil w).symm⟩)⟩
  | some file =>
    refine ⟨w.useFile file, rfl, ?_⟩
    apply Program.Obeys.bind (freadAll_holds file w)
    intro contents _ heq
    subst heq
    refine .perform (fun _ => ⟨_, watch_fclose _ file, ?_⟩)
    cases contents with
    | none => exact .perform (fun _ => ⟨_, rfl, rfl⟩)
    | some x => rfl

theorem releaseImage_frees (ctx : FlashContext) (w : Belongings) :
    Program.Obeys watch (releaseImage ctx) (w.hold (imageOf ctx)) (fun _ w' => w' = w) := by
  unfold releaseImage imageOf
  cases ctx.data with
  | none => exact hold_nil w
  | some image => exact fun _ => ⟨_, watch_free w image.addr [], hold_nil w⟩

theorem flashAll_frees (host : Endian) (ctx : FlashContext) (w : Belongings) :
    Program.Obeys watch (flashAll host ctx) (w.hold (imageOf ctx)) (fun _ w' => w' = w) := by
  apply (Even.resetAll ctx fcdCmdResetBootloader (fun _ => rfl) _ trivial).bind
  intro _ _ heq
  subst heq
  have hvisits := Even.fcdForEach (Even.funcubeFlash host) ctx (w.hold (imageOf ctx)) trivial
  apply ((fcdForEach_context (fun path => funcubeFlash_context host path ctx)).obeys hvisits).bind
  rintro ⟨result, _⟩ _ ⟨rfl, rfl⟩
  apply (Even.resetAll _ fcdCmdResetApplication (fun _ => rfl) _ trivial).bind
  intro _ _ heq
  subst heq
  apply (releaseImage_frees _ w).bind
  intro _ _ heq
  subst heq
  rfl

/-- What is held when the dongles are turned to. -/
def prepared : Except Int FlashContext → List Nat
  | .error _ => []
  | .ok ctx => imageOf ctx

theorem stop_holds (text : String) (w : Belongings) :
    Program.Obeys watch (stop text) w (fun r w' => w' = w.hold (prepared r)) :=
  .perform (fun _ => ⟨w, rfl, .perform (fun _ => ⟨w, rfl, (hold_nil w).symm⟩)⟩)

theorem prepare_holds (operands : List String) {parsed : Except Int (FlashContext × Option String)}
    (hdata : Unloaded parsed) (w : Belongings) :
    Program.Obeys watch (prepare operands parsed) w (fun r w' => w' = w.hold (prepared r)) := by
  rcases parsed with status | ⟨ctx, filename⟩
  · exact (hold_nil w).symm
  have hctx : w = w.hold (prepared (.ok ctx)) := by
    rw [prepared, imageOf, hdata _ rfl, Option.map_none, Option.toList_none, hold_nil]
  cases operands with
  | cons operand rest => exact stop_holds _ w
  | nil =>
    simp only [prepare]
    split
    · exact stop_holds _ w
    · split
      · cases filename with
        | none => exact stop_holds _ w
        | some name =>
          apply (readImage_holds name ctx w).bind
          intro r _ heq
          subst heq
          cases r with
          | none => rfl
          | some ctx => rfl
      · exact hctx

theorem prepareMain_holds (getoptLong : List String → List Parsed × List String)
    (argv : List String) (w : Belongings) : Program.Obeys watch (prepareMain getoptLong argv) w
      (fun r w' => w' = w.hold (prepared r)) := by
  have hparse : Program.Confined Apart
      (parseOptions (getoptLong argv).1 ⟨0, 2000, none, 0⟩ none) Unloaded :=
    parseOptions_confined (fun _ _ _ _ => rfl) _ rfl none
  apply (hparse.obeys (hparse.neutral (I := fun _ => True) (fun _ hc r w _ => hc r w) w
    trivial)).bind
  intro parsed _ hafter
  obtain ⟨rfl, hdata⟩ := hafter
  exact prepare_holds _ hdata _

theorem Even.fcdFlashMain (host : Endian) (getoptLong : List String → List Parsed × List String)
    (argv : List String) : Even (fcdFlashMain host getoptLong argv) := by
  intro w _
  rw [fcdFlashMain_prepare]
  apply (prepareMain_holds getoptLong argv w).bind
  intro r _ heq
  subst heq
  cases r with
  | error status => exact hold_nil w
  | ok ctx => exact flashAll_frees host ctx w

theorem Even.fcdMain (host : Endian) (query : String → Bytes) : Even (fcdMain host query) :=
  (Even.fcdForEach (fun path context => Even.funcubeDebug host (query path) path context) ()).bind
    (fun _ => .done _)

end Belongings

namespace Balanced

/-- A call that has to do with neither handles nor lists. -/
def Apart (c : Call) : Prop := ∀ r w, Ledger.watch w ⟨c, r⟩ = some w

theorem deals {α : Type} {dev : Fcd} {p : Hid α} (hp : Deals.Only dev p) : Balanced p := by
  refine hp.neutral (fun β q hq => ?_)
  cases hq with
  | io cmd iskip idata ilen odata olen => exact fcdIo _ _ _ _ _ _ _
  | say stream text => exact .perform (fun _ _ _ => rfl)

/-- A device that is dealt with and closed. -/
theorem closes {α β : Type} {dev : Fcd} {body : Hid β} {finish : β → Hid α}
    (hbody : Deals.Only dev body) (hfinish : ∀ r, Balanced (finish r)) :
    Balanced (body >>= fun r => Model.fcdClose (some dev) >>= fun _ => finish r) :=
  (deals hbody).bind (fun r => (fcdClose _).bind (fun _ => hfinish r))

theorem funcubeFlash (host : Endian) (path : String) (ctx : FlashContext) :
    Balanced (Model.funcubeFlash host path ctx) := by
  rw [funcubeFlash_eq]
  apply (fcdOpen _).bind
  intro fcd
  cases fcd with
  | none => exact .done _
  | some dev =>
    have h := closes (Deals.steps host dev path ctx) (fun result => .done (result, ctx))
    simpa only [bind_assoc, Program.pure_eq] using h

theorem funcubeDebug (host : Endian) (query : Bytes) (path : String) (context : Unit) :
    Balanced (Model.funcubeDebug host query path context) := by
  apply (fcdOpen _).bind
  intro fcd
  cases fcd with
  | none => exact (Program.Neutral.perform (fun _ _ _ => rfl)).bind (fun _ => .done _)
  | some dev => exact closes (Deals.diagnose host dev query path) (fun _ => .done _)

theorem flashAll (host : Endian) (ctx : FlashContext) : Balanced (Model.flashAll host ctx) := by
  have hreset : ∀ (ctx : FlashContext) (reset : UInt32 → Hid Unit),
      (∀ delayMs, Balanced (reset delayMs)) → Balanced (Model.resetAll ctx reset) := by
    intro ctx reset hreset
    unfold Model.resetAll
    split
    · exact hreset _
    · exact .done _
  apply (hreset ctx _ (resetAll fcdCmdResetBootloader)).bind
  intro _
  apply (fcdForEach (fun _ path ctx _ w hw => funcubeFlash host path ctx w hw.1) ctx).bind
  rintro ⟨result, ctx⟩
  apply (hreset ctx _ (resetAll fcdCmdResetApplication)).bind
  intro _
  have hrelease : Balanced (releaseImage ctx) := by
    unfold releaseImage
    split
    · exact free _
    · exact .done _
  exact hrelease.bind (fun _ => .done _)

theorem fcdFlashMain (host : Endian) (getoptLong : List String → List Parsed × List String)
    (argv : List String) : Balanced (Model.fcdFlashMain host getoptLong argv) := by
  rw [fcdFlashMain_prepare]
  have herrand : ∀ c, Errand c → Apart c := by
    intro c hc
    cases c <;> first | exact fun _ _ => rfl | cases hc
  apply ((prepareMain_confined herrand getoptLong argv).neutral (fun _ hc r w _ => hc r w)).bind
  intro prepared
  cases prepared with
  | error status => exact .done _
  | ok ctx => exact flashAll host ctx

theorem fcdMain (host : Endian) (query : String → Bytes) :
    Balanced (Model.fcdMain host query) :=
  (fcdForEach (fun _ path _ _ w hw => funcubeDebug host (query path) path () w hw.1) ()).bind
    (fun _ => .done _)

end Balanced

end Libfcd.Proofs
