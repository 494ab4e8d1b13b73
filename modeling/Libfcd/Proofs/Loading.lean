import Libfcd.Interaction.Settles
import Libfcd.Model.Flash
import Libfcd.Proofs.Script

namespace Libfcd.Proofs
open Interaction Memory Model

variable {σ : Type}

/-- The calls of hidapi. -/
def onBus : Call → Bool
  | .hidOpenPath _ | .hidWrite .. | .hidRead .. | .hidClose _ | .hidEnumerate ..
  | .deviceInfo _ | .hidFreeEnumeration _ => true
  | _ => false

/-- An event that no dongle can notice. -/
def Offline (e : Happening) : Prop := onBus e.1 = false

theorem reports_offline {es : List Happening} (h : ∀ e ∈ es, Offline e) : reports es = [] := by
  rw [reports, List.filterMap_eq_nil_iff]
  rintro ⟨c, r⟩ he
  cases c with
  | hidWrite dev data => cases h _ he
  | _ => rfl

/-- A message. -/
def Printed (e : Happening) : Prop := ∃ stream text, e = ⟨.print stream text, ()⟩

theorem Printed.offline {e : Happening} (h : Printed e) : Offline e := by
  obtain ⟨stream, text, rfl⟩ := h
  rfl

/-! The option loop writes messages, and nothing else. -/

section
variable (h : Host σ)

theorem print_settles (stream : Stream) (text : String) :
    Program.Settles h Printed (print stream text) (fun _ => True) :=
  .perform (fun _ => ⟨stream, text, rfl⟩)

theorem putLines_settles (lines : List String) :
    Program.Settles h Printed (putLines lines) (fun _ => True) := by
  induction lines with
  | nil => exact .done trivial
  | cons line rest ih => exact (print_settles h _ _).bind (fun _ _ => ih)

theorem die_settles : Program.Settles h Printed die (fun status => status = exitFailure) :=
  (print_settles h _ _).bind (fun _ _ => .done rfl)

theorem handleOption_settles (option : Parsed) (context : FlashContext)
    (filename : Option String) :
    Program.Settles h Printed (handleOption option context filename) (fun _ => True) := by
  obtain ⟨c, optarg⟩ := option
  cases c with
  | reset =>
    cases optarg with
    | none => exact .done trivial
    | some optarg =>
      simp only [handleOption]
      split
      · exact .done trivial
      · apply (print_settles h _ _).bind
        intro _ _
        exact (die_settles h).bind (fun _ _ => .done trivial)
  | help =>
    have husage : Program.Settles h Printed usage (fun _ => True) :=
      (putLines_settles h _).bind (fun _ _ => .done trivial)
    exact husage.bind (fun _ _ => .done trivial)
  | version => exact (print_settles h _ _).bind (fun _ _ => .done trivial)
  | other => exact (die_settles h).bind (fun _ _ => .done trivial)
  | _ => exact .done trivial

theorem parseOptions_settles (options : List Parsed) (context : FlashContext)
    (filename : Option String) :
    Program.Settles h Printed (parseOptions options context filename) (fun _ => True) := by
  induction options generalizing context filename with
  | nil => exact .done trivial
  | cons option rest ih =>
    apply (handleOption_settles h option context filename).bind
    intro r _
    cases r with
    | error status => exact .done trivial
    | ok x => exact ih x.1 x.2

end

/-! What the C library was asked about files, and what it said. -/

def found (es : List Happening) : List (String × Nat) :=
  es.flatMap (fun
    | ⟨.fopen name, file⟩ => (Option.toList file).map (fun f => (name, f))
    | _ => [])

def told (es : List Happening) : List (Nat × Int) :=
  es.flatMap (fun
    | ⟨.ftell file, r⟩ => [(file, r)]
    | _ => [])

def fetched (es : List Happening) : List (Nat × Nat × Bytes) :=
  es.flatMap (fun
    | ⟨.fread file size, bytes⟩ => [(file, size, bytes)]
    | _ => [])

@[simp] theorem found_append (xs ys : List Happening) : found (xs ++ ys) = found xs ++ found ys :=
  List.flatMap_append

@[simp] theorem told_append (xs ys : List Happening) : told (xs ++ ys) = told xs ++ told ys :=
  List.flatMap_append

@[simp] theorem fetched_append (xs ys : List Happening) :
    fetched (xs ++ ys) = fetched xs ++ fetched ys := List.flatMap_append

/-- An open file that was read to its end: as many bytes as its end has a position,
and more than none. -/
structure ReadWhole (file : Nat) (image : Image) (size : UInt64) (es : List Happening) : Prop where
  nonempty : size ≠ 0
  read : ∃ (stop : Int) (bytes : Bytes), (file, stop) ∈ told es ∧ size = UInt64.ofInt stop ∧
    (file, size.toNat, bytes) ∈ fetched es ∧ size.toNat ≤ bytes.length ∧
    image.bytes = bytes.take size.toNat

/-- A file that could be opened and was read to its end. -/
structure Loaded (name : String) (image : Image) (size : UInt64) (es : List Happening) : Prop where
  read : ∃ file, (name, file) ∈ found es ∧ ReadWhole file image size es

theorem Loaded.length {name : String} {image : Image} {size : UInt64} {es : List Happening}
    (h : Loaded name image size es) : image.bytes.length = size.toNat := by
  obtain ⟨file, -, hr⟩ := h.read
  obtain ⟨stop, bytes, -, -, -, hlen, himage⟩ := hr.read
  rw [himage, List.length_take]
  omega

theorem not_readWhole {es : List Happening} (h : fetched es = []) (file : Nat) (image : Image)
    (size : UInt64) : ¬ ReadWhole file image size es := by
  intro hr
  obtain ⟨stop, bytes, -, -, hbytes, -⟩ := hr.read
  rw [h] at hbytes
  cases hbytes

theorem readWhole_congr {es fs : List Happening} (htold : told es = told fs)
    (hfetched : fetched es = fetched fs) {file : Nat} {image : Image} {size : UInt64} :
    ReadWhole file image size es ↔ ReadWhole file image size fs := by
  constructor
  · intro h
    exact ⟨h.nonempty, by rw [← htold, ← hfetched]; exact h.read⟩
  · intro h
    exact ⟨h.nonempty, by rw [htold, hfetched]; exact h.read⟩

/-- After one question for the size and, later, one read of as much. -/
theorem readWhole_iff {es fs : List Happening} {file : Nat} {stop : Int} {bytes : Bytes}
    (hes : told es = [(file, stop)]) (hes' : fetched es = []) (hfs : told fs = [])
    (hfs' : fetched fs = [(file, (UInt64.ofInt stop).toNat, bytes)]) {image : Image}
    {size : UInt64} : ReadWhole file image size (es ++ fs) ↔ size = UInt64.ofInt stop ∧ size ≠ 0 ∧
      size.toNat ≤ bytes.length ∧ image.bytes = bytes.take size.toNat := by
  have htold : told (es ++ fs) = [(file, stop)] := by
    rw [told_append, hes, hfs, List.append_nil]
  have hfetched : fetched (es ++ fs) = [(file, (UInt64.ofInt stop).toNat, bytes)] := by
    rw [fetched_append, hes', hfs', List.nil_append]
  constructor
  · intro h
    obtain ⟨stop', bytes', hstop, hsize, hbytes, hlen, himage⟩ := h.read
    rw [htold] at hstop
    rw [hfetched, List.mem_singleton] at hbytes
    obtain rfl : stop' = stop := by simpa using hstop
    obtain rfl : bytes' = bytes := congrArg (fun x => x.2.2) hbytes
    exact ⟨hsize, h.nonempty, hlen, himage⟩
  · rintro ⟨rfl, hne, hlen, himage⟩
    refine ⟨hne, stop, bytes, ?_, rfl, ?_, hlen, himage⟩
    · rw [htold]
      exact List.mem_singleton_self _
    · rw [hfetched]
      exact List.mem_singleton_self _

/-- Events that say nothing of files. -/
structure Fileless (es : List Happening) : Prop where
  found : found es = []
  told : told es = []
  fetched : fetched es = []

/-- A file that is opened first is loaded if it is read to its end after that. -/
theorem loaded_iff {name : String} {file : Nat} {es fs : List Happening} (hes : found es = [])
    (hfs : Fileless fs) {image : Image} {size : UInt64} :
    Loaded name image size (⟨.fopen name, some file⟩ :: es ++ fs) ↔
      ReadWhole file image size es := by
  let first : List Happening := [⟨.fopen name, some file⟩]
  have hfound : found (first ++ es ++ fs) = [(name, file)] := by
    rw [found_append, found_append, hes, hfs.found]
    rfl
  have hcongr : ∀ file', ReadWhole file' image size (first ++ es ++ fs) ↔
      ReadWhole file' image size es := by
    intro file'
    refine readWhole_congr ?_ ?_
    · rw [told_append, told_append, hfs.told, List.append_nil]
      rfl
    · rw [fetched_append, fetched_append, hfs.fetched, List.append_nil]
      rfl
  constructor
  · intro h
    obtain ⟨file', hfile, hr⟩ := h.read
    obtain rfl : file' = file := by
      change (name, file') ∈ found (first ++ es ++ fs) at hfile
      rw [hfound] at hfile
      simpa using hfile
    exact (hcongr file').mp hr
  · intro h
    refine ⟨file, ?_, (hcongr file).mpr h⟩
    change (name, file) ∈ found (first ++ es ++ fs)
    rw [hfound]
    exact List.mem_singleton_self _

/-- The calls that `fsize` makes. -/
def sizing : Call → Bool
  | .fseek .. | .ftell _ => true
  | _ => false

theorem offline_of_sizing {e : Happening} (h : sizing e.1 = true) : Offline e := by
  obtain ⟨c, r⟩ := e
  cases c <;> first | rfl | cases h

theorem quiet_of_sizing {es : List Happening} (h : ∀ e ∈ es, sizing e.1 = true) :
    found es = [] ∧ fetched es = [] := by
  simp only [found, fetched, List.flatMap_eq_nil_iff]
  refine ⟨fun e he => ?_, fun e he => ?_⟩
  · obtain ⟨c, r⟩ := e
    cases c <;> first | rfl | cases h _ he
  · obtain ⟨c, r⟩ := e
    cases c <;> first | rfl | cases h _ he

/-- The events of `fsize`: where it gives a size, this is the position of the end. -/
theorem fsize_runs (h : Host σ) (s : σ) (file : Nat) :
    ∃ (size : Int) (t : σ) (es : List Happening), Program.Runs h (fsize file) s size t es ∧
      (∀ e ∈ es, sizing e.1 = true) ∧ (size ≠ -1 → told es = [(file, size)]) := by
  rcases h1 : seeking h file .stop s with ⟨r1, s1⟩
  by_cases hr1 : r1 = -1
  · refine ⟨-1, s1, [⟨.fseek file .stop, r1⟩], ?_, by simp [sizing], by simp⟩
    apply runs_fseek h1
    rw [if_pos hr1]
    exact .done h _ _
  rcases h2 : telling h file s1 with ⟨size, s2⟩
  by_cases hr2 : size = -1
  · refine ⟨-1, s2, [⟨.fseek file .stop, r1⟩, ⟨.ftell file, size⟩], ?_, by simp [sizing], by simp⟩
    apply runs_fseek h1
    rw [if_neg hr1]
    apply runs_ftell h2
    rw [if_pos hr2]
    exact .done h _ _
  rcases h3 : seeking h file .set s2 with ⟨r3, s3⟩
  refine ⟨if r3 = -1 then -1 else size, s3,
    [⟨.fseek file .stop, r1⟩, ⟨.ftell file, size⟩, ⟨.fseek file .set, r3⟩], ?_,
    by simp [sizing], ?_⟩
  · apply runs_fseek h1
    rw [if_neg hr1]
    apply runs_ftell h2
    rw [if_neg hr2]
    apply runs_fseek h3
    by_cases hr3 : r3 = -1
    · rw [if_pos hr3, if_pos hr3]
      exact .done h _ _
    · rw [if_neg hr3, if_neg hr3]
      exact .done h _ _
  · split
    · intro hne
      exact absurd rfl hne
    · intro _
      exact rfl

/-- What comes of loading an image. -/
def LoadOutcome (name : String) (context : FlashContext) (es : List Happening) :
    Option FlashContext → Prop
  | none => ∀ image size, ¬ Loaded name image size es
  | some context' => ∃ image size, Loaded name image size es ∧
      context' = { context with data := some image, size }

/-- The events of `fread_all`: the contents are those that were fetched. -/
theorem freadAll_runs (h : Host σ) (s : σ) (file : Nat) :
    ∃ r t es, Program.Runs h (freadAll file) s r t es ∧ (∀ e ∈ es, Offline e) ∧ found es = [] ∧
      match r with
      | none => ∀ image size, ¬ ReadWhole file image size es
      | some (image, size) => ReadWhole file image size es := by
  obtain ⟨stop, s1, es, hsize, hsizing, htold⟩ := fsize_runs h s file
  have hoff : ∀ e ∈ es, Offline e := fun e he => offline_of_sizing (hsizing e he)
  obtain ⟨hfound, hfetched⟩ := quiet_of_sizing hsizing
  by_cases hs : stop = -1
  · exact ⟨none, s1, es, hsize.bind_done (if_pos hs), hoff, hfound, not_readWhole hfetched file⟩
  have htold := htold hs
  let len := UInt64.ofInt stop
  rcases hm : allocating h len.toNat s1 with ⟨_ | buffer, s2⟩
  · have hnone : fetched (es ++ [⟨.malloc len.toNat, (none : Option Nat)⟩]) = [] := by
      rw [fetched_append, hfetched]
      rfl
    refine ⟨none, s2, es ++ [⟨.malloc len.toNat, (none : Option Nat)⟩], hsize.bind ?_,
      by simpa [or_imp, forall_and] using ⟨hoff, rfl⟩, by rw [found_append, hfound]; rfl,
      not_readWhole hnone file⟩
    rw [if_neg hs]
    exact runs_malloc hm (.done h _ _)
  rcases hf : fetching h file len.toNat s2 with ⟨bytes, s3⟩
  -- What is left is the test of how much was read, and the end it leads to.
  have hrun : ∀ {r t fs}, Program.Runs h (if len ≠ 0 ∧ len.toNat ≤ bytes.length then
        pure (some (⟨buffer, bytes.take len.toNat⟩, len))
      else do
        free buffer
        pure none) s3 r t fs → Program.Runs h (freadAll file) s r t
          (es ++ (⟨.malloc len.toNat, some buffer⟩ :: ⟨.fread file len.toNat, bytes⟩ :: fs)) := by
    intro r t fs hrest
    apply hsize.bind
    rw [if_neg hs]
    exact runs_malloc hm (runs_fread hf hrest)
  by_cases hlen : len ≠ 0 ∧ len.toNat ≤ bytes.length
  · rw [if_pos hlen] at hrun
    refine ⟨_, s3, _, hrun (.done h _ _), by simpa [or_imp, forall_and] using ⟨hoff, rfl, rfl⟩,
      by rw [found_append, hfound]; rfl, ?_⟩
    exact (readWhole_iff htold hfetched rfl rfl).mpr ⟨rfl, hlen.1, hlen.2, rfl⟩
  · rw [if_neg hlen] at hrun
    refine ⟨none, _, _, hrun (.call (.done h _ _)),
      by simpa [or_imp, forall_and] using ⟨hoff, rfl, rfl, rfl⟩,
      by rw [found_append, hfound]; rfl, fun image size hr => ?_⟩
    obtain ⟨rfl, hne, hle, -⟩ := (readWhole_iff htold hfetched rfl rfl).mp hr
    exact hlen ⟨hne, hle⟩

theorem readImage_runs (h : Host σ) (s : σ) (name : String) (context : FlashContext) :
    ∃ r t es, Program.Runs h (readImage name context) s r t es ∧ (∀ e ∈ es, Offline e) ∧
      LoadOutcome name context es r := by
  rcases ho : finding h name s with ⟨_ | file, s1⟩
  · refine ⟨none, (h (.perror "open") s1).2,
      [⟨.fopen name, (none : Option Nat)⟩, ⟨.perror "open", ()⟩],
      runs_fopen ho (.call (.done h _ _)), by simp [Offline, onBus], fun image size hl => ?_⟩
    obtain ⟨file, hfile, -⟩ := hl.read
    cases hfile
  obtain ⟨r, s2, es, hread, hoff, hfound, hr⟩ := freadAll_runs h s1 file
  cases r with
  | none =>
    let fs : List Happening := [⟨.fclose file, ()⟩, ⟨.perror "read", ()⟩]
    refine ⟨none, (h (.perror "read") (h (.fclose file) s2).2).2,
      ⟨.fopen name, some file⟩ :: es ++ fs,
      runs_fopen ho (hread.bind (.call (.call (.done h _ _)))), ?_, fun image size hl => ?_⟩
    · simpa [fs, or_imp, forall_and] using ⟨rfl, hoff, rfl, rfl⟩
    · exact hr image size ((loaded_iff hfound ⟨rfl, rfl, rfl⟩).mp hl)
  | some x =>
    obtain ⟨image, size⟩ := x
    let fs : List Happening := [⟨.fclose file, ()⟩]
    refine ⟨some { context with data := some image, size }, (h (.fclose file) s2).2,
      ⟨.fopen name, some file⟩ :: es ++ fs, runs_fopen ho (hread.bind (.call (.done h _ _))), ?_,
      image, size, (loaded_iff hfound ⟨rfl, rfl, rfl⟩).mpr hr, rfl⟩
    simpa [fs, or_imp, forall_and] using ⟨rfl, hoff, rfl⟩

theorem fileless_of_printed {es : List Happening} (h : ∀ e ∈ es, Printed e) : Fileless es := by
  refine ⟨?_, ?_, ?_⟩ <;>
    · apply List.flatMap_eq_nil_iff.mpr
      intro e he
      obtain ⟨stream, text, rfl⟩ := h e he
      rfl

/-- Messages before it do not matter to what was loaded. -/
theorem loaded_append {pre es : List Happening} (h : ∀ e ∈ pre, Printed e) (name : String)
    (image : Image) (size : UInt64) :
    Loaded name image size (pre ++ es) ↔ Loaded name image size es := by
  have hpre := fileless_of_printed h
  have hfound : found (pre ++ es) = found es := by simp [hpre.found]
  have hcongr : ∀ file, ReadWhole file image size (pre ++ es) ↔ ReadWhole file image size es :=
    fun file => readWhole_congr (by simp [hpre.told]) (by simp [hpre.fetched])
  constructor
  · intro hl
    obtain ⟨file, hfile, hr⟩ := hl.read
    exact ⟨file, hfound ▸ hfile, (hcongr file).mp hr⟩
  · intro hl
    obtain ⟨file, hfile, hr⟩ := hl.read
    exact ⟨file, hfound ▸ hfile, (hcongr file).mpr hr⟩

end Libfcd.Proofs
