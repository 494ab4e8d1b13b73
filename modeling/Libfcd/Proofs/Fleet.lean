import Libfcd.Devices.Fleet
import Libfcd.Proofs.Dealings
import Libfcd.Proofs.Job
import Libfcd.Proofs.Prepare

namespace Libfcd.Proofs
open Interaction Memory Model Devices

variable {σ : Type}

/-- Dealing with a dongle opens no other. -/
theorem Deals.opensOnly {α : Type} {dev : Fcd} {p : Hid α} (hp : Deals.Only dev p) :
    Program.Confined (OpensOnly dev.path) p (fun _ => True) := by
  refine hp.confined (fun c hc => ?_) (by simp [OpensOnly]) (by simp [OpensOnly])
  intro path heq
  subst heq
  cases hc

theorem keepPath_confined (path : String) (addr : Nat) (copy : Option (Option Nat)) :
    Program.Confined (OpensOnly path) (keepPath addr (copy.map (path, ·)))
      (fun fcd => ∀ dev, fcd = some dev → dev.path = path) := by
  rcases copy with _ | _ | pathAddr
  · exact .perform (by simp [OpensOnly]) (fun _ => by rintro dev ⟨⟩)
  · exact .perform (by simp [OpensOnly]) (fun _ => by rintro dev ⟨⟩)
  · intro dev heq
    cases heq
    rfl

theorem fcdOpen_confined (path : String) :
    Program.Confined (OpensOnly path) (fcdOpen (some path))
      (fun fcd => ∀ dev, fcd = some dev → dev.path = path) := by
  refine Program.Confined.perform (by simp [OpensOnly]) (fun addr => ?_)
  cases addr with
  | none => rintro dev ⟨⟩
  | some addr =>
    refine Program.Confined.perform (by simp [OpensOnly]) (fun handle => ?_)
    cases handle with
    | none => exact .perform (by simp [OpensOnly]) (fun _ => keepPath_confined path addr none)
    | some dev =>
      refine Program.Confined.perform (by simp [OpensOnly]) (fun copy => ?_)
      exact .perform (by simp [OpensOnly]) (fun _ => keepPath_confined path addr (some copy))

theorem fcdClose_confined (path : String) (dev : Option Fcd) :
    Program.Confined (OpensOnly path) (fcdClose dev) (fun _ => True) := by
  cases dev with
  | none => trivial
  | some dev =>
    refine Program.Confined.perform (by simp [OpensOnly]) (fun _ => ?_)
    exact ⟨by simp [OpensOnly], fun _ => trivial⟩

/-- The steps for a dongle open no other. -/
theorem funcubeFlash_confined (host : Endian) (path : String) (ctx : FlashContext) :
    Program.Confined (OpensOnly path) (funcubeFlash host path ctx) (fun _ => True) := by
  rw [funcubeFlash_eq]
  apply (fcdOpen_confined path).bind
  intro fcd hfcd
  cases fcd with
  | none => trivial
  | some fcd =>
    obtain rfl := hfcd fcd rfl
    apply (Deals.opensOnly (Deals.flashErase fcd _ ctx)).bind
    intro result _
    apply (Deals.opensOnly (Deals.flashWrite host fcd _ ctx result)).bind
    intro result _
    apply (Deals.opensOnly (Deals.flashVerify host fcd _ ctx result)).bind
    intro result _
    exact (fcdClose_confined fcd.path (some fcd)).bind (fun _ _ => trivial)

section
variable {D : Type} {serve : Serve D} {h : Host σ} {view : σ → Fleet D}

/-- What follows on opening a dongle and opens no other moves no other. -/
theorem opened_aside (a : Populated serve h view) {α : Type} {path p : String} (hpath : path ≠ p)
    {f : Option Handle → Hid α} {s t : σ} {x y : α} {es : List Happening}
    (hrun : Program.Runs h (hidOpenPath p >>= f) s x t es) (hnone : f none = .done y)
    (hf : ∀ r, Program.Confined (OpensOnly p) (f r) (fun _ => True)) :
    (view t).dongle path = (view s).dongle path := by
  obtain ⟨r, s1, es₁, es₂, hopen, hrest, rfl⟩ := hrun.split
  obtain ⟨rfl, rfl⟩ := Prod.mk.inj (Option.some.inj hopen.run)
  have hstill : (view (opening h p s).2).dongle path = (view s).dongle path :=
    congrFun (a.still (.hidOpenPath p) s (by simp)) path
  have hopens := a.opens p s
  change Program.Runs h (f (opening h p s).1) (opening h p s).2 x t es₂ at hrest
  cases hr : (opening h p s).1 with
  | none =>
    rw [hr, hnone] at hrest
    obtain ⟨-, rfl⟩ := Prod.mk.inj (Option.some.inj hrest.run)
    exact hstill
  | some dev =>
    rw [hr] at hopens
    refine (a.aside hrest ?_ (fun e he hopen => ?_)).trans hstill
    · rw [hopens.resolve_right (by simp)]
      exact hpath.symm
    · exact hpath (((hf _).calls hrest).1 e he path hopen)

/-- An exchange moves no dongle but its own. -/
theorem fcdIo_aside (a : Populated serve h view) {dev : Fcd} {path : String}
    (hpath : path ≠ dev.path) {cmd iskip : UInt8} {idata : Option Bytes} {ilen : UInt8}
    {odata : Option Buffer} {olen : UInt8} {s t : σ} {x : Status × Option Buffer}
    {es : List Happening}
    (hrun : Program.Runs h (fcdIo (some dev) cmd iskip idata ilen odata olen) s x t es) :
    (view t).dongle path = (view s).dongle path := by
  have hio : Deals.Only dev (fcdIo (some dev) cmd iskip idata ilen odata olen) := .single (.io ..)
  have hconf := Deals.opensOnly hio
  rw [fcdIo] at hrun hconf
  split at hrun
  · obtain ⟨-, rfl⟩ := Prod.mk.inj (Option.some.inj hrun.run)
    rfl
  · rename_i hptr
    rw [if_neg hptr] at hconf
    exact opened_aside a hpath hrun rfl hconf.2

theorem Deals.aside (a : Populated serve h view) {α : Type} {dev : Fcd} {p : Hid α}
    (hp : Deals.Only dev p) {path : String} (hpath : path ≠ dev.path) {s t : σ} {x : α}
    {es : List Happening} (hrun : Program.Runs h p s x t es) :
    (view t).dongle path = (view s).dongle path := by
  refine Program.Built.relates (R := fun s t => (view t).dongle path = (view s).dongle path)
    (fun _ => rfl) (fun _ _ _ h h' => h'.trans h) (fun β q hq s x t es hrun => ?_) hp hrun
  cases hq with
  | io cmd iskip idata ilen odata olen => exact fcdIo_aside a hpath hrun
  | say stream text =>
    obtain ⟨-, rfl⟩ := Prod.mk.inj (Option.some.inj hrun.run)
    exact congrFun (a.still _ s (by simp)) path

/-- Opening a dongle moves none, and what follows has its path. -/
theorem fcdOpen_split (a : Populated serve h view) {α : Type} {path : String}
    {f : Option Fcd → Hid α} {s t : σ} {x : α} {es : List Happening}
    (hrun : Program.Runs h (fcdOpen (some path) >>= f) s x t es) :
    ∃ fcd u fs, Program.Runs h (f fcd) u x t fs ∧ (view u).dongle = (view s).dongle ∧
      ∀ dev, fcd = some dev → dev.path = path := by
  obtain ⟨fcd, u, _, fs, hopen, hrest, -⟩ := hrun.split
  obtain ⟨rfl, rfl, rfl⟩ := hopen.unique (fcdOpen_spec h path s)
  exact ⟨_, _, fs, hrest, a.quiet hopen (Opening.reports_events path _),
    ((fcdOpen_confined path).calls hopen).2⟩

/-- The steps for a dongle move no other. -/
theorem funcubeFlash_aside (a : Populated serve h view) (host : Endian) {path other : String}
    (hother : other ≠ path) {ctx : FlashContext} {s t : σ} {x : Int × FlashContext}
    {es : List Happening} (hrun : Program.Runs h (funcubeFlash host path ctx) s x t es) :
    (view t).dongle other = (view s).dongle other := by
  rw [funcubeFlash_eq] at hrun
  obtain ⟨fcd, s1, fs, hrest, hquiet, hpath⟩ := fcdOpen_split a hrun
  rw [← hquiet]
  cases fcd with
  | none =>
    obtain ⟨-, rfl⟩ := Prod.mk.inj (Option.some.inj hrest.run)
    rfl
  | some fcd =>
    obtain rfl := hpath fcd rfl
    obtain ⟨result, s2, _, _, herase, h₁, -⟩ := hrest.split
    obtain ⟨result, s3, _, _, hwrite, h₂, -⟩ := h₁.split
    obtain ⟨result, s4, _, _, hverify, h₃, -⟩ := h₂.split
    obtain ⟨u, s5, _, _, hclose, h₄, -⟩ := h₃.split
    obtain ⟨-, rfl, rfl⟩ := hclose.unique (fcdClose_spec h s4 fcd)
    obtain ⟨-, rfl⟩ := Prod.mk.inj (Option.some.inj h₄.run)
    rw [a.quiet hclose rfl, Deals.aside a (Deals.flashVerify host fcd _ ctx _) hother hverify,
      Deals.aside a (Deals.flashWrite host fcd _ ctx _) hother hwrite,
      Deals.aside a (Deals.flashErase fcd _ ctx) hother herase]

end

section
variable {wipe : Plane UInt8 → Plane UInt8} {h : Host σ}

/-- A job that returns 0 leaves the image in the flash, if a step of it looks there. -/
theorem funcubeFlash_matches {view : σ → Boot} (a : Attached (Boot.serve wipe) h view)
    {host : Endian} {path : String} {ctx : FlashContext}
    (hfit : ctx.size.toUInt32.toNat ≤ ctx.image.length)
    (hw : ctx.wants actionWrite = true ∨ ctx.wants actionVerify = true) {s t : σ}
    {es : List Happening} (hrun : Program.Runs h (funcubeFlash host path ctx) s (0, ctx) t es) :
    (view t).Matches ctx.image := by
  rw [funcubeFlash_eq] at hrun
  obtain ⟨fcd, s1, _, gs, -, hrest, -⟩ := hrun.split
  cases fcd with
  | none => cases hrest.run
  | some fcd =>
    obtain ⟨erase, write, verify, result, u, fs, hsteps, htaken, hgated⟩ :=
      gated_steps h s1 host path fcd hfit
    have hdo : Program.Runs h ((flashErase path fcd ctx >>= fun result =>
        flashWrite host path fcd ctx result >>= flashVerify host path fcd ctx) >>= fun result => do
          fcdClose (some fcd)
          pure (result, ctx)) s1 (0, ctx) t gs := by
      simpa only [bind_assoc] using hrest
    obtain ⟨result', u', _, _, hsteps', hclose, -⟩ := hdo.split
    obtain ⟨rfl, rfl, -⟩ := hsteps.unique hsteps'
    obtain ⟨v, u', _, _, hclose', hend, -⟩ := hclose.split
    obtain ⟨-, rfl, rfl⟩ := hclose'.unique (fcdClose_spec h u fcd)
    obtain ⟨hresult, rfl⟩ := Prod.mk.inj (Option.some.inj hend.run)
    rw [a.quiet hclose' rfl]
    exact htaken.matches a hfit hgated (Prod.mk.inj hresult).1 hw

/-- The same on a host with many dongles. -/
theorem funcubeFlash_delivers {view : σ → Fleet Boot} (a : Populated (Boot.serve wipe) h view)
    {host : Endian} {path : String} {ctx : FlashContext}
    (hfit : ctx.size.toUInt32.toNat ≤ ctx.image.length)
    (hw : ctx.wants actionWrite = true ∨ ctx.wants actionVerify = true) {s t : σ}
    {es : List Happening} (hrun : Program.Runs h (funcubeFlash host path ctx) s (0, ctx) t es) :
    ((view t).dongle path).Matches ctx.image :=
  funcubeFlash_matches (a.attached path) hfit hw
    ((funcubeFlash_confined host path ctx).runs (only_eq h) hrun)

/-- A way through the entries of a list on which `I` is kept, with the visits made
so far. -/
theorem visitEach_through {γ : Type} {fn : String → γ → Hid (Int × γ)} {context : γ}
    {devs : DeviceList} {I : List Visit → σ → Prop}
    (hinfo : ∀ vs s, I vs s → I vs (h (.deviceInfo devs) s).2)
    (hfn : ∀ path vs s, I vs s → ∃ v t, v.path = path ∧ I (vs ++ [v]) t ∧
      Program.Runs h (fn path context) s (v.result, context) t v.events)
    (paths : List (Option String)) {past : List Visit} {s : σ} (hI : I past s) :
    ∃ vs result t es, Program.Runs h (visitEach fn devs paths context) s (result, context) t es ∧
      Tour devs paths vs result es ∧ I (past ++ vs) t := by
  induction paths generalizing past s with
  | nil => exact ⟨[], 0, s, [], .done h _ s, .done, by rwa [List.append_nil]⟩
  | cons path rest ih =>
    have hI1 := hinfo past s hI
    cases path with
    | none =>
      obtain ⟨vs, result, t, es, hrun, htour, hend⟩ := ih (hinfo _ _ hI1)
      exact ⟨vs, result, t, _, .call (.call hrun), .skip htour, hend⟩
    | some path =>
      obtain ⟨v, u, rfl, hI2, hvisit⟩ := hfn path past _ hI1
      by_cases hr : v.result = 0
      · obtain ⟨vs, result, t, es, hrun, htour, hend⟩ := ih (hinfo _ _ hI2)
        refine ⟨v :: vs, result, t, _, ?_, .pass v hr htour, by simpa using hend⟩
        refine .call (hvisit.bind ?_)
        simp only [ne_eq, hr, not_true_eq_false, if_false]
        exact .call hrun
      · refine ⟨[v], v.result, u, _, ?_, .fail rest v hr, hI2⟩
        refine .call (hvisit.bind_done ?_)
        simp only [ne_eq, hr, not_false_eq_true, if_true]
        rfl

/-- What visits leave behind: the image, as far as the dongle's range goes, in every
dongle that has only seen visits that returned 0, if they wrote or verified. No
range changes, and nothing of a dongle that was not visited. -/
structure Supplied (ctx : FlashContext) (before after : String → Boot) (vs : List Visit) :
    Prop where
  ranges : ∀ path, (after path).start = (before path).start ∧
    (after path).stop = (before path).stop
  spared : ∀ path, path ∉ vs.map Visit.path → after path = before path
  installed : ctx.wants actionWrite = true ∨ ctx.wants actionVerify = true →
    ∀ path ∈ vs.map Visit.path, (∀ v ∈ vs, v.path = path → v.result = 0) →
      (after path).Matches ctx.image

theorem Supplied.next {view : σ → Fleet Boot} (a : Populated (Boot.serve wipe) h view)
    {host : Endian} {ctx : FlashContext}
    (hfit : ctx.wants actionWrite = true ∨ ctx.wants actionVerify = true →
      ctx.size.toUInt32.toNat ≤ ctx.image.length) {before : String → Boot} {vs : List Visit}
    {v : Visit} {s t : σ} (hd : Supplied ctx before (view s).dongle vs)
    (hrun : Program.Runs h (funcubeFlash host v.path ctx) s (v.result, ctx) t v.events) :
    Supplied ctx before (view t).dongle (vs ++ [v]) := by
  constructor
  · intro path
    obtain ⟨hstart, hstop⟩ := hd.ranges path
    exact ⟨(a.keeps Boot.start hrun (fun report _ => Boot.serve_start wipe report) path).trans
      hstart, (a.keeps Boot.stop hrun (fun report _ => Boot.serve_stop wipe report) path).trans
      hstop⟩
  · intro path hpath
    simp only [List.map_append, List.mem_append, List.map_singleton, List.mem_singleton,
      not_or] at hpath
    rw [funcubeFlash_aside a host hpath.2 hrun]
    exact hd.spared path hpath.1
  · intro hw path hpath hall
    by_cases hv : path = v.path
    · subst hv
      have hzero := hall v (by simp) rfl
      rw [hzero] at hrun
      exact funcubeFlash_delivers a (hfit hw) hw hrun
    · rw [funcubeFlash_aside a host hv hrun]
      refine hd.installed hw path ?_ (fun u hu => hall u (by simp [hu]))
      simpa [hv] using hpath

end

/-- Two dongles, one with an application and one without, and an entry without a path. -/
def hubOfTwo : Hub Boot where
  link path := ⟨if path = "left" then installed else oneBlock, [], []⟩
  path := ""
  listed := [some "left", none, some "right"]
  file := List.replicate 48 9

end Libfcd.Proofs
