import Libfcd.Interaction.Pieces
import Libfcd.Model.Diagnose
import Libfcd.Model.Flash

namespace Libfcd.Proofs
open Interaction Memory Model

/-- What a program does that deals with one device: exchanges, and messages. -/
inductive Deals (dev : Fcd) : (β : Type) → Hid β → Prop where
  | io (cmd iskip : UInt8) (idata : Option Bytes) (ilen : UInt8) (odata : Option Buffer)
      (olen : UInt8) : Deals dev _ (fcdIo (some dev) cmd iskip idata ilen odata olen)
  | say (stream : Stream) (text : String) : Deals dev _ (print stream text)

namespace Deals

variable {α : Type}

/-- Made of nothing else. -/
abbrev Only (dev : Fcd) (p : Hid α) : Prop := Program.Built (Deals dev) p

variable (host : Endian) (dev : Fcd)

theorem fcdGet (cmd : UInt8) (data : Option Buffer) (len : UInt8) :
    Only dev (Model.fcdGet (some dev) cmd data len) := .single (.io ..)

theorem fcdSet (cmd : UInt8) (data : Option Bytes) (len : UInt8) :
    Only dev (Model.fcdSet (some dev) cmd data len) := .piece (.io ..) (fun _ => .done _)

theorem print (stream : Stream) (text : String) : Only dev (Model.print stream text) :=
  .single (.say ..)

theorem fcdQuery (str : Option Buffer) (len : Int32) :
    Only dev (Model.fcdQuery (some dev) str len) := by
  apply (fcdGet dev _ _ _).bind
  intro x
  split
  · exact .done _
  · exact (Program.Built.expect _).bind (fun _ => .done _)

theorem fcdBlGetAddressRange : Only dev (Model.fcdBlGetAddressRange host (some dev)) := by
  apply (fcdGet dev _ _ _).bind
  intro x
  split
  · exact .done _
  · exact (Program.Built.expect _).bind (fun _ => .done _)

theorem fcdBlSetAddress (addr : UInt32) : Only dev (Model.fcdBlSetAddress host (some dev) addr) :=
  fcdSet dev _ _ 4

theorem fcdBlReadBlock (block : Option Buffer) :
    Only dev (Model.fcdBlReadBlock (some dev) block) := fcdGet dev _ _ _

theorem fcdBlWriteBlock (block : Option Bytes) :
    Only dev (Model.fcdBlWriteBlock (some dev) block) :=
  .piece (.io ..) (fun _ => .done _)

theorem fcdBlFlashWrite (data : Bytes) (size : UInt32) :
    Only dev (Model.fcdBlFlashWrite host (some dev) data size) := by
  apply (fcdBlGetAddressRange host dev).bind
  intro x
  split
  · exact .done _
  split
  · exact .done _
  split
  · exact .done _
  apply (fcdBlSetAddress host dev _).bind
  intro x
  split
  · exact .done _
  refine (Program.Built.loop (fun addr => ?_) _ _ _ _).bind (fun left => ?_)
  · apply (fcdBlWriteBlock dev _).bind
    intro x
    split
    · exact .done _
    · exact .done _
  · split
    · exact .done _
    · exact .done _

theorem fcdBlFlashVerify (data : Bytes) (size : UInt32) :
    Only dev (Model.fcdBlFlashVerify host (some dev) data size) := by
  apply (fcdBlGetAddressRange host dev).bind
  intro x
  split
  · exact .done _
  split
  · exact .done _
  split
  · exact .done _
  apply (fcdBlSetAddress host dev _).bind
  intro x
  split
  · exact .done _
  refine (Program.Built.loop (fun addr => ?_) _ _ _ _).bind (fun left => ?_)
  · apply (fcdBlReadBlock dev _).bind
    intro x
    split
    · exact .done _
    · apply (Program.Built.expect _).bind
      intro _
      apply (Program.Built.expect _).bind
      intro _
      split
      · exact .done _
      · exact .done _
  · split
    · exact .done _
    · exact .done _

theorem complain (result : Int) (text : String) : Only dev (Model.complain result text) := by
  unfold Model.complain
  split
  · exact print dev _ _
  · exact .done _

theorem flashErase (path : String) (ctx : FlashContext) :
    Only dev (Model.flashErase path dev ctx) := by
  unfold Model.flashErase
  split
  · exact (fcdSet dev _ none 0).bind (fun _ => (complain dev _ _).bind (fun _ => .done _))
  · exact .done _

theorem flashWrite (path : String) (ctx : FlashContext) (result : Int) :
    Only dev (Model.flashWrite host path dev ctx result) := by
  unfold Model.flashWrite
  split
  · exact (fcdBlFlashWrite host dev _ _).bind
      (fun _ => (complain dev _ _).bind (fun _ => .done _))
  · exact .done _

theorem flashVerify (path : String) (ctx : FlashContext) (result : Int) :
    Only dev (Model.flashVerify host path dev ctx result) := by
  unfold Model.flashVerify
  split
  · exact (fcdBlFlashVerify host dev _ _).bind
      (fun _ => (complain dev _ _).bind (fun _ => .done _))
  · exact .done _

/-- The steps of `funcube_flash` between opening and closing. -/
theorem steps (path : String) (ctx : FlashContext) :
    Only dev (Model.flashErase path dev ctx >>= fun result =>
      Model.flashWrite host path dev ctx result >>= Model.flashVerify host path dev ctx) :=
  (flashErase dev path ctx).bind (fun _ =>
    (flashWrite host dev path ctx _).bind (fun _ => flashVerify host dev path ctx _))

theorem printBlock (block : List (UInt8 × Nat)) : Only dev (Model.printBlock block) := by
  induction block with
  | nil => exact .done _
  | cons entry rest ih => exact (print dev _ _).bind (fun _ => ih)

theorem diagnose (query : Bytes) (path : String) :
    Only dev (Model.diagnose host query path dev) := by
  apply (fcdQuery dev _ _).bind
  intro x
  split
  · exact (print dev _ _).bind (fun _ => .done _)
  · apply (Program.Built.expect _).bind
    intro query
    apply (print dev _ _).bind
    intro _
    apply (fcdBlGetAddressRange host dev).bind
    intro range
    split
    · exact .done _
    · apply (print dev _ _).bind
      intro _
      apply (fcdBlSetAddress host dev _).bind
      intro _
      apply (fcdBlReadBlock dev _).bind
      intro x
      split
      · exact .done _
      · apply (Program.Built.expect _).bind
        intro block
        exact (printBlock dev _).bind (fun _ => .done _)

end Deals

/-- The calls that are made on a handle. -/
def onHandle : Call → Bool
  | .hidWrite .. | .hidRead .. | .hidClose _ => true
  | _ => false

section
variable {α : Type} {P : Call → Prop} (hP : ∀ c, onHandle c = true → P c)

include hP in
theorem sendReceive_confined (hidDev : Handle) (cmd : UInt8) (buffer : Buffer) (length : Nat)
    (odata : Option Buffer) (olen : UInt8) :
    Program.Confined P (sendReceive hidDev cmd buffer length odata olen) (fun _ => True) := by
  apply (Program.Confined.expect _).bind
  intro report _
  refine Program.Confined.perform (hP _ rfl) (fun written => ?_)
  split
  · apply (Program.Confined.expect _).bind
    intro _ _
    refine Program.Confined.perform (hP _ rfl) (fun received => ?_)
    apply (Program.Confined.expect _).bind
    intro buffer _
    split
    · split
      · exact (Program.Confined.expect _).bind (fun _ _ => trivial)
      · trivial
    · trivial
  · trivial

include hP in
theorem fcdIo_confined {dev : Fcd} (hopen : P (.hidOpenPath dev.path)) (cmd iskip : UInt8)
    (idata : Option Bytes) (ilen : UInt8) (odata : Option Buffer) (olen : UInt8) :
    Program.Confined P (fcdIo (some dev) cmd iskip idata ilen odata olen) (fun _ => True) := by
  rw [fcdIo]
  split
  · trivial
  · refine Program.Confined.perform hopen (fun handle => ?_)
    cases handle with
    | none => trivial
    | some hidDev =>
      apply (Program.Confined.expect _).bind
      intro buffer _
      apply (sendReceive_confined hP hidDev cmd buffer _ odata _).bind
      intro x _
      exact ⟨hP _ rfl, fun _ => trivial⟩

include hP in
/-- The calls of a program that deals with one device. -/
theorem Deals.Only.confined {dev : Fcd} {p : Hid α} (hp : Deals.Only dev p)
    (hopen : P (.hidOpenPath dev.path)) (hsay : ∀ stream text, P (.print stream text)) :
    Program.Confined P p (fun _ => True) := by
  refine .built hp (fun β q hq => ?_)
  cases hq with
  | io cmd iskip idata ilen odata olen =>
    exact fcdIo_confined hP hopen cmd iskip idata ilen odata olen
  | say stream text => exact ⟨hsay stream text, fun _ => trivial⟩

end

end Libfcd.Proofs
