import Libfcd.Devices.Bootloader
import Libfcd.Memory.Latest
import Libfcd.Model.Flash

namespace Libfcd.Proofs
open Interaction Memory Model Devices

variable {σ : Type}

/-- The things that `fcd-flash` can be asked to do. -/
inductive Action where
  | reset
  | erase
  | write
  | verify
  deriving DecidableEq, Repr

namespace Action

def flag : Action → UInt32
  | .reset => actionReset
  | .erase => actionErase
  | .write => actionWrite
  | .verify => actionVerify

/-- The letters that ask for it and that take the wish back. -/
def on : Action → Opt
  | .reset => .reset
  | .erase => .erase
  | .write => .write
  | .verify => .verify

def off : Action → Opt
  | .reset => .noReset
  | .erase => .noErase
  | .write => .noWrite
  | .verify => .noVerify

/-- Whether an option that mentions the action turns it on. -/
def mention (a : Action) (o : Parsed) : Option Bool :=
  if o.c = a.on ∨ o.c = .flash then some true
  else if o.c = a.off then some false
  else none

end Action

/-- The file that an option names. -/
def fileOf (o : Parsed) : Option String :=
  if o.c = .input ∨ o.c = .flash then o.optarg else none

/-- The delay that comes with an option, as an `unsigned int`. -/
def delayOf (o : Parsed) : Option UInt32 :=
  if o.c = .reset then (o.optarg.bind strtoul).map UInt64.toUInt32 else none

/-- An option as `getopt_long` delivers it, with an argument exactly where the
table asks for one, that neither is an error nor ends the run. -/
def Delivered (o : Parsed) : Prop :=
  match o.c with
  | .input | .flash => o.optarg.isSome
  | .reset => ∀ optarg, o.optarg = some optarg → (strtoul optarg).isSome
  | .help | .version | .other => False
  | _ => o.optarg = none

/-! The flags, as single bits of a word. -/

theorem or_and_self (x f : UInt32) : (x ||| f) &&& f = f := by
  rw [← UInt32.toBitVec_inj]
  apply BitVec.eq_of_getElem_eq
  intro i hi
  cases hx : x.toBitVec[i] <;> simp [hx]

theorem or_and_of_apart (x : UInt32) {f g : UInt32} (h : f &&& g = 0) :
    (x ||| f) &&& g = x &&& g := by
  have hdist : (x ||| f) &&& g = (x &&& g) ||| (f &&& g) :=
    UInt32.toBitVec_inj.mp BitVec.and_or_distrib_right
  rw [hdist, h, UInt32.or_zero]

theorem andNot_and_self (x f : UInt32) : (x &&& ~~~f) &&& f = 0 := by
  rw [UInt32.and_assoc, UInt32.not_and_self, UInt32.and_zero]

theorem andNot_and_of_apart (x : UInt32) {f g : UInt32} (h : ~~~f &&& g = g) :
    (x &&& ~~~f) &&& g = x &&& g := by
  rw [UInt32.and_assoc, h]

/-- The word that `--flash` stores. -/
def allActions : UInt32 := actionReset ||| actionErase ||| actionWrite ||| actionVerify

namespace Action

theorem flag_ne_zero (a : Action) : a.flag ≠ 0 := by cases a <;> decide

theorem flag_mem_all (a : Action) : allActions &&& a.flag = a.flag := by cases a <;> decide

theorem flag_apart {a b : Action} (h : b ≠ a) : b.flag &&& a.flag = 0 := by
  cases a <;> cases b <;> first | exact absurd rfl h | decide

theorem flag_beside {a b : Action} (h : b ≠ a) : ~~~b.flag &&& a.flag = a.flag := by
  cases a <;> cases b <;> first | exact absurd rfl h | decide

end Action

theorem wants_set (ctx : FlashContext) (a b : Action) :
    FlashContext.wants { ctx with actions := ctx.actions ||| b.flag } a.flag =
      if b = a then true else ctx.wants a.flag := by
  by_cases hab : b = a
  · subst hab
    simp [FlashContext.wants, or_and_self, b.flag_ne_zero]
  · simp [FlashContext.wants, or_and_of_apart _ (Action.flag_apart hab), hab]

theorem wants_clear (ctx : FlashContext) (a b : Action) :
    FlashContext.wants { ctx with actions := ctx.actions &&& ~~~b.flag } a.flag =
      if b = a then false else ctx.wants a.flag := by
  by_cases hab : b = a
  · subst hab
    simp [FlashContext.wants, andNot_and_self]
  · simp [FlashContext.wants, andNot_and_of_apart _ (Action.flag_beside hab), hab]

/-- The variables of `main` after some options, by what they were before: each
is what the last option that sets it says, if there is one. -/
structure Folded (options : List Parsed) (ctx : FlashContext) (filename : Option String)
    (ctx' : FlashContext) (filename' : Option String) : Prop where
  flags : ∀ a : Action, ctx'.wants a.flag = (latest a.mention options).getD (ctx.wants a.flag)
  filename : filename' = (latest fileOf options).or filename
  delay : ctx'.delay = (latest delayOf options).getD ctx.delay
  image : ctx'.data = ctx.data ∧ ctx'.size = ctx.size

/-- The same for one option. -/
structure Applied (o : Parsed) (ctx : FlashContext) (filename : Option String)
    (ctx' : FlashContext) (filename' : Option String) : Prop where
  flags : ∀ a : Action, ctx'.wants a.flag = (a.mention o).getD (ctx.wants a.flag)
  filename : filename' = (fileOf o).or filename
  delay : ctx'.delay = (delayOf o).getD ctx.delay
  image : ctx'.data = ctx.data ∧ ctx'.size = ctx.size

theorem Folded.cons {o : Parsed} {rest : List Parsed} {ctx ctx' ctx'' : FlashContext}
    {filename filename' filename'' : Option String} (ho : Applied o ctx filename ctx' filename')
    (h : Folded rest ctx' filename' ctx'' filename'') :
    Folded (o :: rest) ctx filename ctx'' filename'' where
  flags a := by rw [h.flags, ho.flags, getD_latest_cons]
  filename := by rw [h.filename, ho.filename, or_latest_cons]
  delay := by rw [h.delay, ho.delay, getD_latest_cons]
  image := ⟨h.image.1.trans ho.image.1, h.image.2.trans ho.image.2⟩

/-- Turning an action on or off leaves the other variables alone. -/
theorem applied_set {o : Parsed} {a : Action} (hc : o.c = a.on) (ho : o.optarg = none)
    (ctx : FlashContext) (filename : Option String) :
    Applied o ctx filename { ctx with actions := ctx.actions ||| a.flag } filename := by
  obtain ⟨c, optarg⟩ := o
  simp only at hc ho
  subst hc ho
  refine ⟨fun b => ?_, ?_, ?_, rfl, rfl⟩
  · rw [wants_set]
    cases a <;> cases b <;> rfl
  · cases a <;> rfl
  · cases a <;> rfl

theorem applied_clear {o : Parsed} {a : Action} (hc : o.c = a.off) (ctx : FlashContext)
    (filename : Option String) :
    Applied o ctx filename { ctx with actions := ctx.actions &&& ~~~a.flag } filename := by
  obtain ⟨c, optarg⟩ := o
  simp only at hc
  subst hc
  refine ⟨fun b => ?_, ?_, ?_, rfl, rfl⟩
  · rw [wants_clear]
    cases a <;> cases b <;> rfl
  · cases a <;> rfl
  · cases a <;> rfl

theorem handleOption_delivered {o : Parsed} (ho : Delivered o) (ctx : FlashContext)
    (filename : Option String) :
    ∃ ctx' filename', handleOption o ctx filename = .done (.ok (ctx', filename')) ∧
      Applied o ctx filename ctx' filename' := by
  obtain ⟨c, optarg⟩ := o
  cases c with
  | input =>
    obtain ⟨file, rfl⟩ := Option.isSome_iff_exists.mp ho
    refine ⟨ctx, some file, rfl, fun a => ?_, rfl, rfl, rfl, rfl⟩
    cases a <;> rfl
  | reset =>
    cases optarg with
    | none => exact ⟨_, _, rfl, applied_set (a := .reset) rfl rfl ctx filename⟩
    | some arg =>
      obtain ⟨delay, hdelay⟩ := Option.isSome_iff_exists.mp (ho arg rfl)
      refine ⟨{ ctx with actions := ctx.actions ||| actionReset, delay := delay.toUInt32 },
        filename, by simp [handleOption, hdelay], fun a => ?_, rfl, by simp [delayOf, hdelay], rfl,
        rfl⟩
      refine (wants_set ctx a .reset).trans ?_
      cases a <;> rfl
  | noReset => exact ⟨_, _, rfl, applied_clear (a := .reset) rfl ctx filename⟩
  | erase => exact ⟨_, _, rfl, applied_set (a := .erase) rfl ho ctx filename⟩
  | noErase => exact ⟨_, _, rfl, applied_clear (a := .erase) rfl ctx filename⟩
  | write => exact ⟨_, _, rfl, applied_set (a := .write) rfl ho ctx filename⟩
  | noWrite => exact ⟨_, _, rfl, applied_clear (a := .write) rfl ctx filename⟩
  | verify => exact ⟨_, _, rfl, applied_set (a := .verify) rfl ho ctx filename⟩
  | noVerify => exact ⟨_, _, rfl, applied_clear (a := .verify) rfl ctx filename⟩
  | flash =>
    obtain ⟨file, rfl⟩ := Option.isSome_iff_exists.mp ho
    refine ⟨{ ctx with actions := allActions }, some file, rfl, fun a => ?_, rfl, rfl, rfl, rfl⟩
    have hall : FlashContext.wants { ctx with actions := allActions } a.flag = true := by
      simp [FlashContext.wants, a.flag_mem_all, a.flag_ne_zero]
    rw [hall]
    cases a <;> rfl
  | help => exact ho.elim
  | version => exact ho.elim
  | other => exact ho.elim

/-- The option loop, by induction over the options still to come. -/
theorem parseOptions_delivered {options : List Parsed} (ho : ∀ o ∈ options, Delivered o)
    (ctx : FlashContext) (filename : Option String) :
    ∃ ctx' filename', parseOptions options ctx filename = .done (.ok (ctx', filename')) ∧
      Folded options ctx filename ctx' filename' := by
  induction options generalizing ctx filename with
  | nil => exact ⟨ctx, filename, rfl, fun _ => rfl, rfl, rfl, rfl, rfl⟩
  | cons o rest ih =>
    obtain ⟨ctx', filename', hstep, happly⟩ :=
      handleOption_delivered (ho o (by simp)) ctx filename
    obtain ⟨ctx'', filename'', hrest, hfold⟩ :=
      ih (fun o hm => ho o (by simp [hm])) ctx' filename'
    refine ⟨ctx'', filename'', ?_, .cons happly hfold⟩
    rw [parseOptions, hstep]
    exact hrest

/-- What the usage text says that `--flash=FILE` stands for. -/
def expansion (file : String) : List Parsed :=
  [⟨.reset, none⟩, ⟨.erase, none⟩, ⟨.write, none⟩, ⟨.verify, none⟩, ⟨.input, some file⟩]

/-- No other bits than those of the four actions. `--flash` stores a whole word
where its expansion sets bits, so this is what makes the two agree. -/
def Confined (ctx : FlashContext) : Prop := ctx.actions ||| allActions = allActions

theorem confined_all {ctx : FlashContext} : Confined { ctx with actions := allActions } :=
  UInt32.or_self

theorem confined_start : Confined ⟨0, 2000, none, 0⟩ := UInt32.zero_or

theorem confined_set {ctx : FlashContext} (h : Confined ctx) (a : Action) :
    Confined { ctx with actions := ctx.actions ||| a.flag } := by
  have hflag : a.flag ||| allActions = allActions := by cases a <;> decide
  simp only [Confined, UInt32.or_assoc, hflag]
  exact h

theorem confined_clear {ctx : FlashContext} (h : Confined ctx) (a : Action) :
    Confined { ctx with actions := ctx.actions &&& ~~~a.flag } := by
  simp only [Confined] at h ⊢
  rw [← UInt32.toBitVec_inj] at h ⊢
  apply BitVec.eq_of_getElem_eq
  intro i hi
  have hbit : (ctx.actions ||| allActions).toBitVec[i] = allActions.toBitVec[i] := by rw [h]
  simp only [UInt32.toBitVec_or, BitVec.getElem_or, UInt32.toBitVec_and, BitVec.getElem_and]
    at hbit ⊢
  cases hall : allActions.toBitVec[i] with
  | true => simp
  | false =>
    rw [hall, Bool.or_false] at hbit
    simp [hbit]

/-- A round of the option loop stores into the variables or ends the run. -/
theorem handleOption_ends (o : Parsed) (ctx : FlashContext) (filename : Option String) :
    (∃ ctx' filename', handleOption o ctx filename = .done (.ok (ctx', filename')) ∧
      (Confined ctx → Confined ctx')) ∨
    ∃ p : Hid Int, handleOption o ctx filename = p >>= fun status => .done (.error status) := by
  obtain ⟨c, optarg⟩ := o
  cases c with
  | input => exact .inl ⟨ctx, optarg, rfl, id⟩
  | reset =>
    cases optarg with
    | none => exact .inl ⟨_, _, rfl, fun h => confined_set h .reset⟩
    | some arg =>
      cases hdelay : strtoul arg with
      | some delay =>
        refine .inl ⟨{ ctx with actions := ctx.actions ||| actionReset, delay := delay.toUInt32 },
          filename, by simp [handleOption, hdelay], fun h => ?_⟩
        exact confined_set h .reset
      | none =>
        refine .inr ⟨print .stderr "Invalid reset delay\n" >>= fun _ => die, ?_⟩
        simp [handleOption, hdelay]
  | noReset => exact .inl ⟨_, _, rfl, fun h => confined_clear h .reset⟩
  | erase => exact .inl ⟨_, _, rfl, fun h => confined_set h .erase⟩
  | noErase => exact .inl ⟨_, _, rfl, fun h => confined_clear h .erase⟩
  | write => exact .inl ⟨_, _, rfl, fun h => confined_set h .write⟩
  | noWrite => exact .inl ⟨_, _, rfl, fun h => confined_clear h .write⟩
  | verify => exact .inl ⟨_, _, rfl, fun h => confined_set h .verify⟩
  | noVerify => exact .inl ⟨_, _, rfl, fun h => confined_clear h .verify⟩
  | flash => exact .inl ⟨{ ctx with actions := allActions }, optarg, rfl, fun _ => confined_all⟩
  | help => exact .inr ⟨usage, rfl⟩
  | version => exact .inr ⟨version, rfl⟩
  | other => exact .inr ⟨die, rfl⟩

/-- The expansion leaves the loop where the option itself does. -/
theorem parseOptions_expansion {ctx : FlashContext} (hc : Confined ctx)
    (filename : Option String) (file : String) (rest : List Parsed) :
    parseOptions (expansion file ++ rest) ctx filename =
      parseOptions (⟨.flash, some file⟩ :: rest) ctx filename := by
  have hword : ctx.actions ||| actionReset ||| actionErase ||| actionWrite ||| actionVerify =
      allActions := by
    rw [UInt32.or_assoc, UInt32.or_assoc, UInt32.or_assoc]
    exact hc
  have hleft : parseOptions (expansion file ++ rest) ctx filename =
      parseOptions rest { ctx with actions :=
        ctx.actions ||| actionReset ||| actionErase ||| actionWrite ||| actionVerify }
        (some file) := rfl
  rw [hleft, hword]
  rfl

/-- By induction over the options in front, which leave no bits but those of the
four actions. -/
theorem parseOptions_replace {ctx : FlashContext} (hc : Confined ctx) (filename : Option String)
    (before : List Parsed) (file : String) (rest : List Parsed) :
    parseOptions (before ++ (expansion file ++ rest)) ctx filename =
      parseOptions (before ++ ⟨.flash, some file⟩ :: rest) ctx filename := by
  induction before generalizing ctx filename with
  | nil => exact parseOptions_expansion hc filename file rest
  | cons o before ih =>
    rw [List.cons_append, List.cons_append, parseOptions, parseOptions]
    rcases handleOption_ends o ctx filename with ⟨ctx', filename', ho, hkeep⟩ | ⟨p, ho⟩
    · rw [ho]
      exact ih (hkeep hc) filename'
    · rw [ho, bind_assoc, bind_assoc]
      rfl

/-- The option loop of `main`: each of its variables ends as the last option
that sets it says, and `--flash` is worth its expansion at every place. -/
theorem parseOptions_last_wins (h : Host σ) (s : σ) (options : List Parsed)
    (ho : ∀ o ∈ options, Delivered o) :
    ∃ (ctx : FlashContext) (filename : Option String),
      Program.Runs h (parseOptions options ⟨0, 2000, none, 0⟩ none) s (.ok (ctx, filename)) s [] ∧
      (∀ a : Action, ctx.wants a.flag = true ↔ latest a.mention options = some true) ∧
      filename = latest fileOf options ∧
      ctx.delay = (latest delayOf options).getD 2000 ∧
      ∀ (before : List Parsed) (file : String) (rest : List Parsed),
        parseOptions (before ++ (expansion file ++ rest)) ⟨0, 2000, none, 0⟩ none =
          parseOptions (before ++ ⟨.flash, some file⟩ :: rest) ⟨0, 2000, none, 0⟩ none := by
  obtain ⟨ctx, filename, hparse, hfold⟩ := parseOptions_delivered ho ⟨0, 2000, none, 0⟩ none
  refine ⟨ctx, filename, ?_, fun a => ?_, ?_, hfold.delay, ?_⟩
  · rw [hparse]
    exact .done h _ s
  · have hnone : FlashContext.wants ⟨0, 2000, none, 0⟩ a.flag = false := by
      simp [FlashContext.wants]
    rw [hfold.flags a, hnone]
    cases latest a.mention options <;> simp
  · rw [hfold.filename, Option.or_none]
  · intro before file rest
    exact parseOptions_replace confined_start none before file rest

/-- `--flash=a.bin -E -r500 -r -i b.bin`: everything but an erase, after 500 ms,
with the second file. -/
theorem parseOptions_last_wins_mixed :
    let options : List Parsed := [⟨.flash, some "a.bin"⟩, ⟨.noErase, none⟩, ⟨.reset, some "500"⟩,
      ⟨.reset, none⟩, ⟨.input, some "b.bin"⟩]
    ∃ (ctx : FlashContext) (filename : Option String),
      Program.Runs (Link.host (Boot.serve id)) (parseOptions options ⟨0, 2000, none, 0⟩ none)
        ⟨oneBlock, [], []⟩ (.ok (ctx, filename)) ⟨oneBlock, [], []⟩ [] ∧
      ctx.wants actionWrite = true ∧ ctx.wants actionErase = false ∧ ctx.delay = 500 ∧
      filename = some "b.bin" := by
  intro options
  have hdelivered : ∀ o ∈ options, Delivered o := by
    simp [options, Delivered]
    decide
  obtain ⟨ctx, filename, hrun, hflags, hfile, hdelay, -⟩ := parseOptions_last_wins
    (Link.host (Boot.serve id)) ⟨oneBlock, [], []⟩ options hdelivered
  refine ⟨ctx, filename, hrun, (hflags .write).mpr (by decide), ?_, hdelay.trans (by decide),
    hfile.trans (by decide)⟩
  apply Bool.eq_false_iff.mpr
  intro he
  have hlast := (hflags .erase).mp he
  revert hlast
  decide

end Libfcd.Proofs
