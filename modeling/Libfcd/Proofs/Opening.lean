import Libfcd.Proofs.Script

namespace Libfcd.Proofs
open Interaction Memory Model

variable {σ : Type}

/-- How far `fcd_open` came with a path, with the answers it got on the way. -/
inductive Opening where
  | noMemory
  | notOpened (addr : Nat)
  | noCopy (addr : Nat) (dev : Handle)
  | opened (addr pathAddr : Nat) (dev : Handle)
  deriving DecidableEq, Repr

namespace Opening

def events (path : String) : Opening → List Happening
  | .noMemory => [⟨.malloc 8, (none : Option Nat)⟩]
  | .notOpened addr =>
    [⟨.malloc 8, some addr⟩, ⟨.hidOpenPath path, (none : Option Handle)⟩, ⟨.hidClose none, ()⟩,
      ⟨.free addr, ()⟩]
  | .noCopy addr dev =>
    [⟨.malloc 8, some addr⟩, ⟨.hidOpenPath path, some dev⟩,
      ⟨.strdup path none, (none : Option Nat)⟩, ⟨.hidClose (some dev), ()⟩, ⟨.free addr, ()⟩]
  | .opened addr pathAddr dev =>
    [⟨.malloc 8, some addr⟩, ⟨.hidOpenPath path, some dev⟩, ⟨.strdup path none, some pathAddr⟩,
      ⟨.hidClose (some dev), ()⟩]

/-- What `fcd_open` returns. -/
def device (path : String) : Opening → Option Fcd
  | .opened addr pathAddr _ => some ⟨addr, path, pathAddr⟩
  | _ => none

/-- Opening a dongle sends it nothing. -/
@[simp] theorem reports_events (path : String) (o : Opening) : reports (o.events path) = [] := by
  cases o <;> rfl

end Opening

/-- The outcome of `fcd_open` on a host, and the state it leaves. -/
def attempt (h : Host σ) (path : String) (s : σ) : Opening × σ :=
  match allocating h 8 s with
  | (none, s) => (.noMemory, s)
  | (some addr, s) =>
    match opening h path s with
    | (none, s) => (.notOpened addr, (h (.free addr) (h (.hidClose none) s).2).2)
    | (some dev, s) =>
      match copying h path s with
      | (none, s) => (.noCopy addr dev, (h (.free addr) (closing h dev s)).2)
      | (some pathAddr, s) => (.opened addr pathAddr dev, closing h dev s)

theorem fcdOpen_spec (h : Host σ) (path : String) (s : σ) :
    Program.Runs h (fcdOpen (some path)) s ((attempt h path s).1.device path) (attempt h path s).2
      ((attempt h path s).1.events path) := by
  rcases hm : allocating h 8 s with ⟨_ | addr, s1⟩
  · simp only [attempt, hm]
    exact runs_malloc hm (.done h _ _)
  · rcases ho : opening h path s1 with ⟨_ | dev, s2⟩
    · simp only [attempt, hm, ho]
      exact runs_malloc hm (runs_open ho (.call (.call (.done h _ _))))
    · rcases hc : copying h path s2 with ⟨_ | pathAddr, s3⟩
      · simp only [attempt, hm, ho, hc]
        exact runs_malloc hm (runs_open ho (runs_strdup hc (.call (.call (.done h _ _)))))
      · simp only [attempt, hm, ho, hc]
        exact runs_malloc hm (runs_open ho (runs_strdup hc (.call (.done h _ _))))

/-- The two blocks of a device are given back. -/
theorem fcdClose_spec (h : Host σ) (s : σ) (dev : Fcd) :
    Program.Runs h (fcdClose (some dev)) s ()
      (h (.free dev.addr) (h (.free dev.pathAddr) s).2).2
      [⟨.free dev.pathAddr, ()⟩, ⟨.free dev.addr, ()⟩] :=
  .call (.call (.done h _ _))

end Libfcd.Proofs
