import Libfcd.Proofs.FlashTool

namespace Libfcd.Proofs
open Interaction Memory Model

variable {σ : Type}

/-- A message and the end, with its status. -/
def stop (text : String) : Hid (Except Int FlashContext) := do
  print .stderr text
  let status ← die
  pure (.error status)

/-- The part of `main` behind its option loop that does not look at any dongle. -/
def prepare (operands : List String) :
    Except Int (FlashContext × Option String) → Hid (Except Int FlashContext)
  | .error status => pure (.error status)
  | .ok (context, filename) =>
    match operands with
    | operand :: _ => stop ("extra operand: " ++ operand ++ "\n")
    | [] =>
      if context.actions = 0 then stop "Nothing to do\n"
      else if context.wants (actionWrite ||| actionVerify) then
        match filename with
        | none => stop "No image file specfied\n"
        | some filename => do
          match ← readImage filename context with
          | none => pure (.error exitFailure)
          | some context => pure (.ok context)
      else pure (.ok context)

/-- All of it. -/
def prepareMain (getoptLong : List String → List Parsed × List String) (argv : List String) :
    Hid (Except Int FlashContext) :=
  parseOptions (getoptLong argv).1 ⟨0, 2000, none, 0⟩ none >>= prepare (getoptLong argv).2

/-- What `main` does with its outcome. -/
def carryOut (host : Endian) : Except Int FlashContext → Hid Int
  | .error status => pure status
  | .ok context => flashAll host context

theorem stop_carryOut (host : Endian) (text : String) :
    stop text >>= carryOut host = (print .stderr text >>= fun _ => die) := by
  simp [stop, bind_assoc, carryOut, show ∀ p : Hid Int, p >>= Program.done = p from bind_pure]

theorem proceed_eq (host : Endian) (operands : List String)
    (parsed : Except Int (FlashContext × Option String)) :
    proceed host operands parsed = prepare operands parsed >>= carryOut host := by
  rcases parsed with status | ⟨context, filename⟩
  · rfl
  cases operands with
  | cons operand rest => exact (stop_carryOut host _).symm
  | nil =>
    simp only [proceed, prepare]
    split
    · exact (stop_carryOut host _).symm
    · split
      · cases filename with
        | none => exact (stop_carryOut host _).symm
        | some name =>
          simp only [bind_assoc]
          congr 1
          funext r
          cases r with
          | none => rfl
          | some context => rfl
      · rfl

theorem fcdFlashMain_prepare (host : Endian)
    (getoptLong : List String → List Parsed × List String) (argv : List String) :
    fcdFlashMain host getoptLong argv = prepareMain getoptLong argv >>= carryOut host := by
  rw [fcdFlashMain_eq, prepareMain, bind_assoc]
  congr 1
  funext parsed
  exact proceed_eq host (getoptLong argv).2 parsed

end Libfcd.Proofs
