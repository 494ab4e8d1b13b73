import Libfcd.Proofs.Belongings

namespace Libfcd.Proofs
open Interaction Memory Model

/-- Only a write may have to do with a report ID, and its report has none. -/
def Unnumbered (c : Call) : Prop := ∀ dev report, c = .hidWrite dev report → report.head? = some 0

/-- Cells that are stored further on leave the first as it is. -/
theorem head_of_put {b b' cs : Buffer} {off : Nat} (hoff : 0 < off) (h : b.put off cs = some b') :
    b'.head? = b.head? := by
  unfold Buffer.put at h
  split at h
  · obtain rfl := Option.some.inj h
    cases b with
    | nil =>
      rename_i hfit
      simp only [List.length_nil] at hfit
      omega
    | cons x b =>
      obtain ⟨off, rfl⟩ : ∃ k, off = k + 1 := ⟨off - 1, by omega⟩
      rfl
  · cases h

theorem head_of_fillCommand {cmd iskip ilen : UInt8} {idata : Option Bytes} {buffer : Buffer}
    (h : fillCommand cmd iskip idata ilen = some buffer) : buffer.head? = some (some 0) := by
  simp only [fillCommand, Option.bind_eq_bind, Option.bind_eq_some_iff] at h
  obtain ⟨b₀, h₀, b₁, h₁, b₂, h₂, payload, -, h₃⟩ := h
  rw [head_of_put (by omega) h₃, head_of_put (by decide) h₂, head_of_put (by decide) h₁]
  obtain rfl := Option.some.inj h₀
  rfl

theorem head_of_written {b : Buffer} {length : Nat} {report : Bytes} (hb : b.head? = some (some 0))
    (hlength : 0 < length) (h : (b.slice 0 length).bind Buffer.written = some report) :
    report.head? = some 0 := by
  obtain ⟨cells, hslice, hwritten⟩ := Option.bind_eq_some_iff.mp h
  unfold Buffer.slice at hslice
  split at hslice
  · obtain rfl := Option.some.inj hslice
    obtain ⟨rest, rfl⟩ := List.head?_eq_some_iff.mp hb
    obtain ⟨length, rfl⟩ : ∃ k, length = k + 1 := ⟨length - 1, by omega⟩
    obtain ⟨bytes, -, rfl⟩ := Option.map_eq_some_iff.mp hwritten
    rfl
  · cases hslice

theorem fcdIo_unnumbered (dev : Fcd) (cmd iskip : UInt8) (idata : Option Bytes) (ilen : UInt8)
    (odata : Option Buffer) (olen : UInt8) :
    Program.Confined Unnumbered (fcdIo (some dev) cmd iskip idata ilen odata olen)
      (fun _ => True) := by
  rw [fcdIo]
  split
  · trivial
  · refine .perform (by simp [Unnumbered]) (fun handle => ?_)
    cases handle with
    | none => trivial
    | some hidDev =>
      refine Program.Confined.expect_bind (fun buffer hbuffer => ?_)
      refine Program.Confined.bind (Q := fun _ => True) ?_
        (fun _ _ => .perform (by simp [Unnumbered]) (fun _ => trivial))
      refine Program.Confined.expect_bind (fun report hreport => ?_)
      refine .perform ?_ (fun (written : Int) => ?_)
      · rintro dev report ⟨⟩
        exact head_of_written (head_of_fillCommand hbuffer) (by omega) hreport
      · split
        · refine Program.Confined.expect_bind (fun _ _ => ?_)
          refine .perform (by simp [Unnumbered]) (fun received => ?_)
          refine Program.Confined.expect_bind (fun buffer _ => ?_)
          split
          · split
            · exact Program.Confined.expect_bind (fun _ _ => trivial)
            · trivial
          · trivial
        · trivial

namespace Unnumbered

variable {α : Type}

/-- A program all of whose reports are without a report ID. -/
abbrev Only (p : Hid α) : Prop := Program.Confined Unnumbered p (fun _ => True)

theorem call {c : Call} (hc : ∀ dev report, c ≠ .hidWrite dev report) : Unnumbered c :=
  fun dev report h => absurd h (hc dev report)

theorem errand {c : Call} (hc : Errand c) : Unnumbered c := by
  rintro dev report rfl
  exact False.elim hc

theorem deals {dev : Fcd} {p : Hid α} (hp : Deals.Only dev p) : Only p := by
  refine .built hp (fun β q hq => ?_)
  cases hq with
  | io cmd iskip idata ilen odata olen => exact fcdIo_unnumbered dev cmd iskip idata ilen odata olen
  | say stream text => exact .perform (f := .done) (errand trivial) (fun _ => trivial)

theorem keepPath (addr : Nat) (kept : Option (String × Option Nat)) :
    Only (Model.keepPath addr kept) := by
  rcases kept with _ | ⟨path, _ | pathAddr⟩
  · exact .perform (errand trivial) (fun _ => trivial)
  · exact .perform (errand trivial) (fun _ => trivial)
  · trivial

theorem fcdOpen (path : String) : Only (Model.fcdOpen (some path)) := by
  refine .perform (errand trivial) (fun (addr : Option Nat) => ?_)
  cases addr with
  | none => trivial
  | some addr =>
    refine .perform (call (by simp)) (fun (handle : Option Handle) => ?_)
    cases handle with
    | none => exact .perform (call (by simp)) (fun _ => keepPath addr none)
    | some dev =>
      exact .perform (call (by simp)) (fun _ => .perform (call (by simp)) (fun _ => keepPath _ _))

theorem fcdClose (dev : Option Fcd) : Only (Model.fcdClose dev) := by
  cases dev with
  | none => trivial
  | some dev =>
    exact .perform (errand trivial) (fun _ => .perform (errand trivial) (fun _ => trivial))

theorem visitEach {γ : Type} {fn : String → γ → Hid (Int × γ)}
    (hfn : ∀ path context, Only (fn path context)) (devs : DeviceList)
    (paths : List (Option String)) (context : γ) :
    Only (Model.visitEach fn devs paths context) := by
  induction paths generalizing context with
  | nil => trivial
  | cons path rest ih =>
    have hvisit : Only (visitPath fn path context) := by
      cases path with
      | none => trivial
      | some path => exact hfn path context
    refine .perform (call (by simp)) (fun _ => hvisit.bind (fun r _ => ?_))
    dsimp only
    split
    · trivial
    · exact .perform (call (by simp)) (fun _ => ih _)

theorem fcdForEach {γ : Type} {fn : String → γ → Hid (Int × γ)}
    (hfn : ∀ path context, Only (fn path context)) (context : γ) :
    Only (Model.fcdForEach fn context) := by
  refine .perform (call (by simp)) (fun devs => (visitEach hfn devs _ context).bind (fun _ _ => ?_))
  exact .perform (call (by simp)) (fun _ => trivial)

theorem msSleep (ms : UInt32) : Only (Model.msSleep ms) := by
  have hnap : ∀ us, Program.Confined Unnumbered (usleep us) (fun _ => True) := fun us =>
    .perform (f := .done) (call (by simp)) (fun _ => trivial)
  refine (Program.Confined.loop (fun t => ?_) _ _ _ _).bind (fun t _ => ?_)
  · exact (hnap _).bind (fun _ _ => (hnap _).bind (fun _ _ => trivial))
  · cases t with
    | inl e => exact nomatch e
    | inr t => exact hnap _

theorem fcdReset (path : String) (context : UInt8) : Only (Model.fcdReset path context) := by
  apply (fcdOpen path).bind
  intro dev _
  cases dev with
  | none => trivial
  | some dev =>
    exact (deals (Deals.fcdSet dev context none 0)).bind (fun _ _ =>
      (fcdClose _).bind (fun _ _ => trivial))

theorem resetAll (context : FlashContext) (cmd : UInt8) {reset : UInt32 → Hid Unit}
    (hreset : ∀ delayMs, reset delayMs = (do
      let _ ← Model.fcdForEach Model.fcdReset cmd
      Model.msSleep delayMs)) : Only (resetAll context reset) := by
  unfold Model.resetAll
  split
  · rw [hreset]
    exact (fcdForEach fcdReset cmd).bind (fun _ _ => msSleep _)
  · trivial

theorem funcubeFlash (host : Endian) (path : String) (ctx : FlashContext) :
    Only (Model.funcubeFlash host path ctx) := by
  rw [funcubeFlash_eq]
  apply (fcdOpen path).bind
  intro fcd _
  cases fcd with
  | none => trivial
  | some dev =>
    have h := (deals (Deals.steps host dev path ctx)).bind (fun result _ =>
      (fcdClose (some dev)).bind (R := fun _ => True) (f := fun _ => Program.done (result, ctx))
        (fun _ _ => trivial))
    simpa only [bind_assoc, Program.pure_eq] using h

theorem fcdFlashMain (host : Endian) (getoptLong : List String → List Parsed × List String)
    (argv : List String) : Only (Model.fcdFlashMain host getoptLong argv) := by
  rw [fcdFlashMain_prepare]
  apply (prepareMain_confined (fun _ => errand) getoptLong argv).bind
  intro prepared _
  cases prepared with
  | error status => trivial
  | ok ctx =>
    apply (resetAll ctx fcdCmdResetBootloader (fun _ => rfl)).bind
    intro _ _
    apply (fcdForEach (funcubeFlash host) ctx).bind
    rintro ⟨result, ctx⟩ _
    apply (resetAll ctx fcdCmdResetApplication (fun _ => rfl)).bind
    intro _ _
    have hrelease : Only (releaseImage ctx) := by
      unfold releaseImage
      split
      · exact .perform (f := .done) (errand trivial) (fun _ => trivial)
      · trivial
    exact hrelease.bind (fun _ _ => trivial)

theorem funcubeDebug (host : Endian) (query : Bytes) (path : String) :
    Only (Model.funcubeDebug host query path ()) := by
  apply (fcdOpen path).bind
  intro fcd _
  cases fcd with
  | none => exact .perform (call (by simp)) (fun _ => trivial)
  | some fcd =>
    exact (deals (Deals.diagnose host fcd query path)).bind (fun _ _ =>
      (fcdClose _).bind (fun _ _ => trivial))

theorem fcdMain (host : Endian) (query : String → Bytes) : Only (Model.fcdMain host query) :=
  (fcdForEach (fun path _ => funcubeDebug host (query path) path) ()).bind (fun _ _ => trivial)

end Unnumbered

end Libfcd.Proofs
