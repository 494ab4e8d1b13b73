import Libfcd.Proofs.Diagnosis
import Libfcd.Proofs.Fleet

namespace Libfcd.Proofs
open Interaction Memory Model Devices

variable {σ : Type}

/-- What a run puts out on a stream. -/
def printed (stream : Stream) : List Happening → String
  | [] => ""
  | ⟨.print out text, _⟩ :: es => (if out = stream then text else "") ++ printed stream es
  | _ :: es => printed stream es

@[simp] theorem printed_nil (stream : Stream) : printed stream [] = "" := rfl

@[simp] theorem printed_print (stream out : Stream) (text : String) (es : List Happening) :
    printed stream (⟨.print out text, ()⟩ :: es) =
      (if out = stream then text else "") ++ printed stream es := rfl

@[simp] theorem printed_append (stream : Stream) (xs ys : List Happening) :
    printed stream (xs ++ ys) = printed stream xs ++ printed stream ys := by
  fun_induction printed stream xs with
  | case1 => simp
  | case2 out text _ es ih => simp [ih, printed, String.append_assoc]
  | case3 e es hother ih =>
    rw [List.cons_append, printed, ih]
    exact hother

@[simp] theorem printed_exchange (stream : Stream) (q : Request) (x : Exchange) :
    printed stream (x.events q) = "" := by
  cases x <;> rfl

@[simp] theorem Opening.printed_events (stream : Stream) (path : String) (o : Opening) :
    printed stream (o.events path) = "" := by
  cases o <;> rfl

/-- Nothing was put out but the text at the end. -/
theorem printed_complaint {es : List Happening} (hes : ∀ stream, printed stream es = "")
    {stream out : Stream} {text : String} :
    printed stream (es ++ [⟨.print out text, ()⟩]) = if out = stream then text else "" := by
  simp [hes]

/-- A row of bytes in hexadecimal. -/
def hexLine (row : Bytes) : String := " ".intercalate (row.map (fun x => hex 2 x.toNat)) ++ "\n"

/-- A block in three rows of sixteen bytes. -/
def dump (block : Bytes) : String :=
  String.join ((List.range 3).map fun k => hexLine ((block.drop (16 * k)).take 16))

/-- A byte of a block with what stands behind it. -/
def cell (entry : UInt8 × Nat) : String :=
  hex 2 entry.1.toNat ++ if entry.2 &&& 0xf = 0xf then "\n" else " "

theorem and_fifteen (index : Nat) : index &&& 0xf = 0xf ↔ index % 16 = 15 := by
  rw [show (0xf : Nat) = 2 ^ 4 - 1 from rfl, Nat.and_two_pow_sub_one_eq_mod]

/-- The rest of a row, up to the index at which the line ends. -/
theorem cells_of_row (x : UInt8) {row : Bytes} {index : Nat}
    (hrow : index % 16 + (row.length + 1) = 16) :
    String.join (((x :: row).zipIdx index).map cell) = hexLine (x :: row) := by
  induction row generalizing x index with
  | nil =>
    have hend : index &&& 0xf = 0xf := (and_fifteen index).mpr (by simpa using hrow)
    simp [cell, hexLine, hend]
  | cons y row ih =>
    rw [List.length_cons] at hrow
    have hinside : ¬ index &&& 0xf = 0xf := by
      rw [and_fifteen]
      omega
    rw [List.zipIdx_cons, List.map_cons, String.join_cons, ih y (by omega)]
    simp [cell, hexLine, hinside, String.intercalate_cons_cons, String.append_assoc]

theorem cells_of_block {block : Bytes} (hlen : block.length = 48) :
    String.join (block.zipIdx.map cell) = dump block := by
  have hrow : ∀ (row : Bytes) (k : Nat), row.length = 16 →
      String.join ((row.zipIdx (16 * k)).map cell) = hexLine row := by
    intro row k hlen
    cases row with
    | nil => cases hlen
    | cons x row => exact cells_of_row x (by simp_all)
  have hsplit : block = block.take 16 ++ ((block.drop 16).take 16 ++ (block.drop 32).take 16) := by
    rw [List.take_of_length_le (by simp [hlen] : (block.drop 32).length ≤ 16),
      show block.drop 32 = (block.drop 16).drop 16 by simp, List.take_append_drop,
      List.take_append_drop]
  conv_lhs => rw [hsplit]
  rw [List.zipIdx_append, List.zipIdx_append, List.map_append, List.map_append, String.join_append,
    String.join_append]
  have h₁ := hrow (block.take 16) 0 (by simp [hlen])
  have h₂ := hrow ((block.drop 16).take 16) 1 (by simp [hlen])
  have h₃ := hrow ((block.drop 32).take 16) 2 (by simp [hlen])
  simp only [Nat.mul_zero, Nat.mul_one] at h₁ h₂ h₃
  simp [hlen, dump, List.range_succ, h₁, h₂, h₃]

/-- A block is put out byte for byte, and nothing else is done. -/
theorem printBlock_runs (h : Host σ) (block : List (UInt8 × Nat)) (s : σ) :
    ∃ t es, Program.Runs h (printBlock block) s () t es ∧ (∀ e ∈ es, Printed e) ∧
      printed .stdout es = String.join (block.map cell) ∧ printed .stderr es = "" := by
  induction block generalizing s with
  | nil => exact ⟨s, [], .done h _ s, by simp, rfl, rfl⟩
  | cons entry rest ih =>
    obtain ⟨t, es, hrun, hputs, hout, herr⟩ := ih _
    refine ⟨t, ⟨.print .stdout (cell entry), ()⟩ :: es, .call hrun, ?_, ?_, ?_⟩
    · exact List.forall_mem_cons.mpr ⟨⟨_, _, rfl⟩, hputs⟩
    · simp [hout]
    · simp [herr]

/-- An exchange that did not succeed. -/
def Exchange.Failed (q : Request) (x : Exchange) : Prop := ∃ e, x.outcome q = .error e

/-- The line that names a dongle. Of the array that `fcd_query` fills, the byte behind
the data is as it was. -/
def nameLine (path : String) (query : Bytes) (b : Boot) : String :=
  "[" ++ path ++ "]\t" ++ textOf (cString (b.version.takeD 62 0 ++ (query.drop 62).take 1)) ++ "\n"

def rangeLine (b : Boot) : String :=
  "\tRange: 0x" ++ hex 8 b.start.toNat ++ " - 0x" ++ hex 8 b.stop.toNat ++ "\n"

/-- Where the pointer is after the exchange that sets it to the start of the range. It
may still be where it was if that failed. -/
def Aimed (b : Boot) (fcd : Fcd) (x : Exchange) (pointer : Nat) : Prop :=
  pointer = b.start.toNat ∨ pointer = b.pointer ∧ x.Failed (addressRequest fcd b.start)

/-- The exchanges for a block with what is put out of it, and where they leave the
pointer. The block is the one at the pointer. -/
inductive Dumped (b : Boot) (fcd : Fcd) : List Happening → String → Nat → Prop where
  | unread {x y : Exchange} {pointer left : Nat} (aimed : Aimed b fcd x pointer)
      (failed : y.Failed (readRequest fcd)) (hleft : left = pointer ∨ left = pointer + 48) :
      Dumped b fcd (x.events (addressRequest fcd b.start) ++ y.events (readRequest fcd)) "" left
  | read {x y : Exchange} {pointer : Nat} {es : List Happening} (aimed : Aimed b fcd x pointer)
      (came : y.outcome (readRequest fcd) = .ok (b.flash.window pointer 48))
      (puts : ∀ e ∈ es, Printed e) :
      Dumped b fcd (x.events (addressRequest fcd b.start) ++ (y.events (readRequest fcd) ++ es))
        (dump (b.flash.window pointer 48)) (pointer + 48)

/-- The exchange for the range, and what follows on it if it succeeds. -/
inductive Ranged (b : Boot) (fcd : Fcd) : List Happening → String → Nat → Prop where
  | unknown {x : Exchange} (failed : x.Failed (rangeRequest fcd)) :
      Ranged b fcd (x.events (rangeRequest fcd)) "" b.pointer
  | known {x : Exchange} {es : List Happening} {text : String} {left : Nat}
      (came : rangeIn fcd x = some (b.start, b.stop)) (hdump : Dumped b fcd es text left) :
      Ranged b fcd (x.events (rangeRequest fcd) ++ ⟨.print .stdout (rangeLine b), ()⟩ :: es)
        (rangeLine b ++ text) left

/-- The exchange for the name of a dongle, and what follows on it if it succeeds, with
the result and the text for each stream. -/
inductive Diagnosed (b : Boot) (fcd : Fcd) (query : Bytes) :
    List Happening → Int → String → String → Nat → Prop where
  | unanswered {x : Exchange} (failed : x.Failed (queryRequest fcd 64)) :
      Diagnosed b fcd query (x.events (queryRequest fcd 64) ++
        [⟨.print .stderr ("Query failed for [" ++ fcd.path ++ "]\n"), ()⟩]) (-1) ""
        ("Query failed for [" ++ fcd.path ++ "]\n") b.pointer
  | answered {x : Exchange} {es : List Happening} {text : String} {left : Nat}
      (came : x.outcome (queryRequest fcd 64) = .ok (b.version.takeD 62 0))
      (hrange : Ranged b fcd es text left) :
      Diagnosed b fcd query (x.events (queryRequest fcd 64) ++
        ⟨.print .stdout (nameLine fcd.path query b), ()⟩ :: es) 0
        (nameLine fcd.path query b ++ text) "" left

/-- A visit of the diagnostic callback to a dongle, from opening to closing. -/
inductive Shown (b : Boot) (path : String) (query : Bytes) :
    List Happening → Int → String → String → Nat → Prop where
  | unopened {o : Opening} (ho : o.device path = none) :
      Shown b path query (o.events path ++
        [⟨.print .stderr ("Could not open [" ++ path ++ "]\n"), ()⟩]) (-1) ""
        ("Could not open [" ++ path ++ "]\n") b.pointer
  | opened {o : Opening} {fcd : Fcd} {es : List Happening} {result : Int} {out err : String}
      {left : Nat} (ho : o.device path = some fcd)
      (hdiagnosed : Diagnosed b fcd query es result out err left) :
      Shown b path query (o.events path ++
        (es ++ [⟨.free fcd.pathAddr, ()⟩, ⟨.free fcd.addr, ()⟩])) result out err left

theorem reports_printed {es : List Happening} (hes : ∀ e ∈ es, Printed e) : reports es = [] :=
  reports_offline (fun e he => (hes e he).offline)

section
variable {wipe : Plane UInt8 → Plane UInt8} {h : Host σ} {view : σ → Boot}

/-- Setting the address moves the pointer there, or it failed. -/
theorem address_shows (a : Attached (Boot.serve wipe) h view) (fcd : Fcd) (s : σ) :
    let q := addressRequest fcd (view s).start
    ∃ pointer, view (converse h q s).2 = { view s with pointer } ∧
      Aimed (view s) fcd (converse h q s).1 pointer := by
  intro q
  cases ho : (converse h q s).1.outcome q with
  | ok bytes =>
    refine ⟨_, (a.honest q s bytes ho).1.trans ?_, .inl rfl⟩
    rw [Boot.serve_address]
  | error e =>
    rcases a.converse q s with hstill | hserved
    · exact ⟨_, hstill, .inr ⟨rfl, e, ho⟩⟩
    · refine ⟨_, hserved.trans ?_, .inl rfl⟩
      rw [Boot.serve_address]

/-- Reading a block moves the pointer past it at most, and a block that came is the one
there. -/
theorem read_shows (a : Attached (Boot.serve wipe) h view) (fcd : Fcd) (s : σ) :
    let q := readRequest fcd
    (∃ left, view (converse h q s).2 = { view s with pointer := left } ∧
      (left = (view s).pointer ∨ left = (view s).pointer + 48)) ∧
      ∀ bytes, (converse h q s).1.outcome q = .ok bytes →
        bytes = (view s).flash.window (view s).pointer 48 ∧
          view (converse h q s).2 = { view s with pointer := (view s).pointer + 48 } := by
  intro q
  constructor
  · rcases a.converse q s with hstill | hserved
    · exact ⟨_, hstill, .inl rfl⟩
    · exact ⟨_, hserved, .inr rfl⟩
  · intro bytes ho
    obtain ⟨hserved, data, hdata, rfl⟩ := a.honest q s bytes ho
    rw [Boot.serve_read] at hdata hserved
    obtain rfl := Option.some.inj hdata
    have hlen : ((view s).flash.window (view s).pointer 48).length = 48 := Plane.length_window ..
    rw [List.takeD_eq_take _ (by simp [q, readRequest]), List.take_of_length_le (by
      simp [q, readRequest])]
    exact ⟨rfl, hserved⟩

/-- The block that is read after the address has been set, or could not be. -/
theorem readStart_shows (a : Attached (Boot.serve wipe) h view) (host : Endian) (fcd : Fcd)
    (s : σ) : ∃ t es left, Program.Runs h (readStart host fcd (view s).start) s 0 t es ∧
      Dumped (view s) fcd es (printed .stdout es) left ∧ printed .stderr es = "" ∧
      view t = { view s with pointer := left } := by
  obtain ⟨pointer, hv1, haimed⟩ := address_shows a fcd s
  have haddr := fcdBlSetAddress_spec h s host fcd (view s).start
  dsimp only at hv1 haimed haddr
  generalize converse h (addressRequest fcd (view s).start) s = x at *
  obtain ⟨⟨left, hv2, hleft⟩, hbytes⟩ := read_shows a fcd x.2
  have hread := fcdBlReadBlock_spec h x.2 fcd
  dsimp only at hv2 hleft hbytes hread
  generalize converse h (readRequest fcd) x.2 = y at *
  rw [hv1] at hv2 hleft hbytes
  cases ho : y.1.outcome (readRequest fcd) with
  | error e =>
    rw [ho] at hread
    refine ⟨y.2, _, left, haddr.bind (hread.bind_done rfl), ?_, ?_, hv2⟩
    · rw [printed_append, printed_exchange, printed_exchange]
      exact .unread haimed ⟨e, ho⟩ hleft
    · rw [printed_append, printed_exchange, printed_exchange]
      rfl
  | ok bytes =>
    rw [ho] at hread
    obtain ⟨rfl, hv3⟩ := hbytes bytes ho
    obtain ⟨t, es, hprint, hputs, hout, herr⟩ :=
      printBlock_runs h ((view s).flash.window pointer 48).zipIdx y.2
    refine ⟨t, x.1.events _ ++ (y.1.events _ ++ es), pointer + 48, haddr.bind (hread.bind ?_), ?_,
      ?_, ?_⟩
    · simp only [Option.bind_some, Buffer.written_map_some, Program.expect_some, Program.done_bind]
      exact hprint.bind_done rfl
    · rw [printed_append, printed_append, printed_exchange, printed_exchange, hout,
        cells_of_block (by simp), String.empty_append, String.empty_append]
      exact .read haimed ho hputs
    · rw [printed_append, printed_append, printed_exchange, printed_exchange, herr]
      rfl
    · rw [a.quiet hprint (reports_printed hputs), hv3]

/-- The characters of an array that ends with a NUL. -/
theorem cString_append_nul (bytes : Bytes) : cString (bytes ++ [0]) = cString bytes := by
  induction bytes with
  | nil => rfl
  | cons x rest ih =>
    simp only [cString, List.cons_append, List.takeWhile_cons] at ih ⊢
    split
    · rw [ih]
    · rfl

/-- The array after a query, which was filled before it. -/
theorem written_answered (query bytes : Bytes) : (answered (query.map some) bytes).written =
    some ((bytes ++ query.drop bytes.length).take (query.length - 1) ++ [0]) := by
  rw [← Buffer.written_map_some]
  simp [answered]

theorem cString_named {query : Bytes} (hquery : query.length = 64) (version : Bytes) :
    cString ((version.takeD 62 0 ++ query.drop (version.takeD 62 0).length).take
      (query.length - 1) ++ [0]) = cString (version.takeD 62 0 ++ (query.drop 62).take 1) := by
  have hlen : (version.takeD 62 0).length = 62 := List.takeD_length ..
  rw [cString_append_nul, hquery, List.take_append, hlen, List.take_of_length_le (by omega)]

/-- Asking for the version changes nothing, and a version that came is that of the dongle. -/
theorem query_shows (a : Attached (Boot.serve wipe) h view) (fcd : Fcd) (s : σ) :
    let q := queryRequest fcd 64
    view (converse h q s).2 = view s ∧ ∀ bytes, (converse h q s).1.outcome q = .ok bytes →
      bytes = (view s).version.takeD 62 0 := by
  intro q
  constructor
  · rcases a.converse q s with hstill | hserved
    · exact hstill
    · rw [hserved, Boot.serve_query wipe rfl]
  · intro bytes ho
    obtain ⟨-, data, hdata, rfl⟩ := a.honest q s bytes ho
    obtain rfl : (view s).version = data := Option.some.inj hdata
    rfl

/-- What follows on the name of a dongle. -/
def readRange (host : Endian) (fcd : Fcd) : Hid Int := do
  match ← fcdBlGetAddressRange host (some fcd) with
  | .error _ => pure 0
  | .ok (start, stop) => do
    print .stdout ("\tRange: 0x" ++ hex 8 start.toNat ++ " - 0x" ++ hex 8 stop.toNat ++ "\n")
    readStart host fcd start

theorem readRange_shows (a : Attached (Boot.serve wipe) h view) (host : Endian) (fcd : Fcd)
    (s : σ) : ∃ t es left, Program.Runs h (readRange host fcd) s 0 t es ∧
      Ranged (view s) fcd es (printed .stdout es) left ∧ printed .stderr es = "" ∧
      view t = { view s with pointer := left } := by
  have hrange := fcdBlGetAddressRange_spec h s host fcd
  have hview := Boot.range_view a s fcd
  have hgiven : ∀ range, rangeIn fcd (converse h (rangeRequest fcd) s).1 = some range →
      range = ((view s).start, (view s).stop) := by
    rintro ⟨start, stop⟩ hx
    obtain ⟨rfl, rfl⟩ := Boot.rangeIn_eq a hx
    rfl
  dsimp only at hrange
  generalize converse h (rangeRequest fcd) s = x at *
  cases ho : x.1.outcome (rangeRequest fcd) with
  | error e =>
    rw [ho] at hrange
    refine ⟨x.2, _, _, hrange.bind_done rfl, ?_, printed_exchange .., hview⟩
    rw [printed_exchange]
    exact .unknown ⟨e, ho⟩
  | ok bytes =>
    rw [ho] at hrange
    have hcame : rangeIn fcd x.1 = some (rangeOf bytes) := by simp [rangeIn, ho, Except.toOption]
    have hbytes := hgiven _ hcame
    let s1 := (h (.print .stdout (rangeLine (view s))) x.2).2
    have hv1 : view s1 = view s := (a.still _ x.2 (by simp)).trans hview
    obtain ⟨t, es, left, hread, hdump, herr, hv2⟩ := readStart_shows a host fcd s1
    rw [hv1] at hread hdump hv2
    refine ⟨t, x.1.events _ ++ ⟨.print .stdout (rangeLine (view s)), ()⟩ :: es, left,
      hrange.bind ?_, ?_, ?_, hv2⟩
    · simp only [Except.map, hbytes]
      exact .call hread
    · rw [printed_append, printed_exchange, String.empty_append]
      exact .known (hbytes ▸ hcame) hdump
    · rw [printed_append, printed_exchange, printed_print, herr]
      rfl

/-- What is done between opening and closing. -/
theorem diagnose_shows (a : Attached (Boot.serve wipe) h view) (host : Endian) {query : Bytes}
    (hquery : query.length = 64) (fcd : Fcd) (s : σ) :
    ∃ result t es left, Program.Runs h (diagnose host query fcd.path fcd) s result t es ∧
      Diagnosed (view s) fcd query es result (printed .stdout es) (printed .stderr es) left ∧
      view t = { view s with pointer := left } := by
  have h64 : (query.map some).length = 64 := by simpa using hquery
  have hlen : (query.map some).length = (64 : Int32).toInt.toNat := h64
  have hask := fcdQuery_spec h s fcd (by decide) hlen
  rw [h64] at hask
  obtain ⟨hview, hversion⟩ := query_shows a fcd s
  dsimp only at hask hview hversion
  generalize converse h (queryRequest fcd 64) s = x at *
  cases ho : x.1.outcome (queryRequest fcd 64) with
  | error e =>
    rw [ho] at hask
    let complaint := "Query failed for [" ++ fcd.path ++ "]\n"
    refine ⟨-1, (h (.print .stderr complaint) x.2).2,
      x.1.events _ ++ [⟨.print .stderr complaint, ()⟩], _, hask.bind ?_, ?_,
      (a.still _ x.2 (by simp)).trans hview⟩
    · dsimp only
      exact .call (.done h _ _)
    · rw [printed_complaint (printed_exchange · _ _), printed_complaint (printed_exchange · _ _)]
      exact .unanswered ⟨e, ho⟩
  | ok bytes =>
    rw [ho] at hask
    obtain rfl := hversion bytes ho
    let s1 := (h (.print .stdout (nameLine fcd.path query (view s))) x.2).2
    have hv1 : view s1 = view s := (a.still _ x.2 (by simp)).trans hview
    obtain ⟨t, es, left, hrest, hrange, herr, hv2⟩ := readRange_shows a host fcd s1
    rw [hv1] at hrange hv2
    refine ⟨0, t, x.1.events _ ++ ⟨.print .stdout (nameLine fcd.path query (view s)), ()⟩ :: es,
      left, hask.bind ?_, ?_, hv2⟩
    · dsimp only
      rw [Option.bind_some, written_answered, Program.expect_some, Program.done_bind,
        cString_named hquery]
      exact .call hrest
    · rw [printed_append, printed_append, printed_exchange, printed_exchange, printed_print,
        printed_print, herr]
      exact .answered ho hrange

/-- A visit of the diagnostic callback moves the pointer of its dongle at most. -/
theorem funcubeDebug_shows (a : Attached (Boot.serve wipe) h view) (host : Endian) {query : Bytes}
    (hquery : query.length = 64) (path : String) (s : σ) :
    ∃ result t es left, Program.Runs h (funcubeDebug host query path ()) s (result, ()) t es ∧
      Shown (view s) path query es result (printed .stdout es) (printed .stderr es) left ∧
      view t = { view s with pointer := left } := by
  have hopen := fcdOpen_spec h path s
  have hv1 := a.quiet hopen (Opening.reports_events path _)
  generalize attempt h path s = o at *
  cases hdevice : o.1.device path with
  | none =>
    rw [hdevice] at hopen
    let complaint := "Could not open [" ++ path ++ "]\n"
    refine ⟨-1, (h (.print .stderr complaint) o.2).2, o.1.events path ++
      [⟨.print .stderr complaint, ()⟩], _, hopen.bind ?_, ?_,
      (a.still _ o.2 (by simp)).trans hv1⟩
    · dsimp only
      exact .call (.done h _ _)
    · rw [printed_complaint (Opening.printed_events · _ _),
        printed_complaint (Opening.printed_events · _ _)]
      exact .unopened hdevice
  | some fcd =>
    rw [hdevice] at hopen
    obtain rfl := ((fcdOpen_confined path).calls hopen).2 fcd rfl
    obtain ⟨result, t, es, left, hrun, hdiagnosed, hv2⟩ := diagnose_shows a host hquery fcd o.2
    rw [hv1] at hdiagnosed hv2
    have hclose := fcdClose_spec h t fcd
    refine ⟨result, _, _, left, hopen.bind (hrun.bind (hclose.bind_done rfl)), ?_, ?_⟩
    · have hout : ∀ stream, printed stream (o.1.events fcd.path ++ (es ++
          [⟨.free fcd.pathAddr, ()⟩, ⟨.free fcd.addr, ()⟩])) = printed stream es := by
        intro stream
        rw [printed_append, printed_append, Opening.printed_events, String.empty_append]
        exact String.append_empty
      rw [hout, hout]
      exact .opened hdevice hdiagnosed
    · rw [a.quiet hclose rfl, hv2]

end

/-- The diagnostic callback opens no other dongle. -/
theorem funcubeDebug_confined (host : Endian) (query : Bytes) (path : String) :
    Program.Confined (OpensOnly path) (funcubeDebug host query path ()) (fun _ => True) := by
  apply (fcdOpen_confined path).bind
  intro fcd hfcd
  cases fcd with
  | none => exact .perform (by simp [OpensOnly]) (fun _ => trivial)
  | some fcd =>
    obtain rfl := hfcd fcd rfl
    apply (Deals.opensOnly (Deals.diagnose host fcd query fcd.path)).bind
    intro result _
    exact (fcdClose_confined fcd.path (some fcd)).bind (fun _ _ => trivial)

section
variable {wipe : Plane UInt8 → Plane UInt8} {h : Host σ} {view : σ → Fleet Boot}

/-- The diagnostic callback moves no other dongle. -/
theorem funcubeDebug_aside (a : Populated (Boot.serve wipe) h view) (host : Endian)
    {query : Bytes} {path other : String} (hother : other ≠ path) {s t : σ} {x : Int × Unit}
    {es : List Happening} (hrun : Program.Runs h (funcubeDebug host query path ()) s x t es) :
    (view t).dongle other = (view s).dongle other := by
  obtain ⟨fcd, s1, fs, hrest, hquiet, hpath⟩ := fcdOpen_split a hrun
  rw [← hquiet]
  cases fcd with
  | none =>
    obtain ⟨u, s2, _, _, hprint, hend, -⟩ := hrest.split
    obtain ⟨-, rfl⟩ := Prod.mk.inj (Option.some.inj hend.run)
    obtain ⟨-, rfl⟩ := Prod.mk.inj (Option.some.inj hprint.run)
    exact congrFun (a.still _ _ (by simp)) other
  | some fcd =>
    obtain rfl := hpath fcd rfl
    obtain ⟨result, s2, _, _, hdiagnose, h₁, -⟩ := hrest.split
    obtain ⟨u, s3, _, _, hclose, h₂, -⟩ := h₁.split
    obtain ⟨-, rfl, rfl⟩ := hclose.unique (fcdClose_spec h s2 fcd)
    obtain ⟨-, rfl⟩ := Prod.mk.inj (Option.some.inj h₂.run)
    rw [a.quiet hclose rfl, Deals.aside a (Deals.diagnose host fcd query fcd.path) hother hdiagnose]

/-- A visit of the diagnostic callback on a host with many dongles. -/
theorem funcubeDebug_visits (a : Populated (Boot.serve wipe) h view) (host : Endian)
    {query : Bytes} (hquery : query.length = 64) (path : String) (s : σ) :
    ∃ result t es left, Program.Runs h (funcubeDebug host query path ()) s (result, ()) t es ∧
      Shown ((view s).dongle path) path query es result (printed .stdout es) (printed .stderr es)
        left ∧
      (view t).dongle = Function.update (view s).dongle path
        { (view s).dongle path with pointer := left } := by
  obtain ⟨result, t, es, left, hrun, hshown, hmoved⟩ :=
    funcubeDebug_shows (a.attached path) host hquery path s
  have hrun' : Program.Runs h (funcubeDebug host query path ()) s (result, ()) t es :=
    (funcubeDebug_confined host query path).runs (fun c s hc => (only_eq h c s hc).symm) hrun
  refine ⟨result, t, es, left, hrun', hshown, funext fun other => ?_⟩
  by_cases hother : other = path
  · subst hother
    rw [Function.update_self, hmoved]
  · rw [Function.update_of_ne hother, funcubeDebug_aside a host hother hrun']

/-- Visits one after the other: each shows its dongle as it stands at the time, and no
more than the pointer of that is moved. -/
inductive Displayed (query : String → Bytes) (before : String → Boot) :
    List Visit → (String → Boot) → Prop where
  | none : Displayed query before [] before
  | next {vs : List Visit} {now : String → Boot} {v : Visit} {left : Nat}
      (past : Displayed query before vs now)
      (shown : Shown (now v.path) v.path (query v.path) v.events v.result
        (printed .stdout v.events) (printed .stderr v.events) left) :
      Displayed query before (vs ++ [v])
        (Function.update now v.path { now v.path with pointer := left })

/-- What visits leave as it was. -/
structure Repointed (before after : String → Boot) (vs : List Visit) : Prop where
  moved : ∀ path, ∃ pointer, after path = { before path with pointer }
  spared : ∀ path, path ∉ vs.map Visit.path → after path = before path

theorem Displayed.repointed {query : String → Bytes} {before after : String → Boot}
    {vs : List Visit} (hd : Displayed query before vs after) : Repointed before after vs := by
  induction hd with
  | none => exact ⟨fun path => ⟨_, rfl⟩, fun _ _ => rfl⟩
  | @next vs now v left past shown ih =>
    constructor
    · intro path
      obtain ⟨pointer, hpointer⟩ := ih.moved path
      by_cases hpath : path = v.path
      · subst hpath
        rw [Function.update_self, hpointer]
        exact ⟨left, rfl⟩
      · rw [Function.update_of_ne hpath]
        exact ⟨pointer, hpointer⟩
    · intro path hpath
      simp only [List.map_append, List.mem_append, List.map_singleton, List.mem_singleton,
        not_or] at hpath
      rw [Function.update_of_ne hpath.2]
      exact ih.spared path hpath.1

/-- A tour puts out what its visits put out. -/
theorem Tour.printed_eq {devs : DeviceList} {paths : List (Option String)} {vs : List Visit}
    {result : Int} {es : List Happening} (htour : Tour devs paths vs result es) (stream : Stream) :
    printed stream es = String.join (vs.map fun v => printed stream v.events) := by
  have hinfo : ∀ fs, printed stream (⟨.deviceInfo devs, ()⟩ :: fs) = printed stream fs :=
    fun _ => rfl
  induction htour with
  | done => simp
  | skip rest ih => rw [hinfo, hinfo, ih]
  | pass v hv rest ih =>
    rw [List.cons_append, hinfo, printed_append, hinfo, ih, List.map_cons, String.join_cons]
  | fail paths v hv => simp [hinfo]

/-- A run of the tool, and what it has shown of the dongles. -/
structure DebugRun (h : Host σ) (view : σ → Fleet Boot) (host : Endian) (query : String → Bytes)
    (s : σ) (status : Int) (t : σ) (es : List Happening) (devs : DeviceList) (vs : List Visit) :
    Prop where
  run : Program.Runs h (fcdMain host query) s status t es
  toured : Toured es devs vs
  visited : Visited devs.paths vs
  status : status = exitSuccess ↔ ∀ v ∈ vs, v.result = 0
  output : ∀ stream, printed stream es = String.join (vs.map fun v => printed stream v.events)
  displayed : Displayed query (view s).dongle vs (view t).dongle

theorem exists_debugRun (a : Populated (Boot.serve wipe) h view) (s : σ) (host : Endian)
    (query : String → Bytes) (hquery : ∀ path, (query path).length = 64) :
    ∃ status t es devs vs, DebugRun h view host query s status t es devs vs := by
  rcases he : enumerating h fcdUsbVid fcdUsbPid s with ⟨devs, s1⟩
  have hv1 : (view s1).dongle = (view s).dongle := by
    have hstill := a.still (.hidEnumerate fcdUsbVid fcdUsbPid) s (by simp)
    rw [← hstill]
    exact congrArg (fun x => (view x.2).dongle) he.symm
  let fn : String → Unit → Hid (Int × Unit) := fun path => funcubeDebug host (query path) path
  let I : List Visit → σ → Prop := fun vs u => Displayed query (view s).dongle vs (view u).dongle
  have hinfo : ∀ vs u, I vs u → I vs (h (.deviceInfo devs) u).2 := by
    intro vs u hI
    have hstill := a.still (.deviceInfo devs) u (by simp)
    simpa only [I, hstill] using hI
  have hfn : ∀ path vs u, I vs u → ∃ v t, v.path = path ∧ I (vs ++ [v]) t ∧
      Program.Runs h (fn path ()) u (v.result, ()) t v.events := by
    intro path vs u hI
    obtain ⟨result, t, es, left, hrun, hshown, hmoved⟩ :=
      funcubeDebug_visits a host (hquery path) path u
    have hnext : I (vs ++ [⟨path, result, es⟩]) t := by
      simp only [I, hmoved]
      exact .next (v := ⟨path, result, es⟩) hI hshown
    exact ⟨⟨path, result, es⟩, t, rfl, hnext, hrun⟩
  have hstart : I [] s1 := by
    simp only [I, hv1]
    exact .none
  obtain ⟨vs, result, s2, fs, hvisits, htour, hdisplayed⟩ :=
    visitEach_through hinfo hfn devs.paths hstart
  have hfree : (view (h (.hidFreeEnumeration devs) s2).2).dongle = (view s2).dongle :=
    a.still _ s2 (by simp)
  have hforEach : Program.Runs h (fcdForEach fn ()) s (result, ())
      (h (.hidFreeEnumeration devs) s2).2
      (⟨.hidEnumerate fcdUsbVid fcdUsbPid, devs⟩ :: fs ++ [⟨.hidFreeEnumeration devs, ()⟩]) :=
    runs_enumerate he (hvisits.bind (.call (.done h _ _)))
  refine ⟨_, _, _, devs, vs, hforEach.bind_done rfl,
    ⟨[], [], fs, result, by simp, htour⟩, htour.visited, exit_success htour rfl,
    fun stream => ?_, ?_⟩
  · have hend : printed stream [⟨.hidFreeEnumeration devs, ()⟩] = "" := rfl
    rw [← htour.printed_eq stream]
    change printed stream (fs ++ [⟨.hidFreeEnumeration devs, ()⟩]) = _
    rw [printed_append, hend, String.append_empty]
  · rw [hfree]
    exact hdisplayed

/-- A run of the tool on any number of dongles, with anything free to fail: it puts out
line by line what the dongles hold that it visits, which are the listed ones up to the
first that could not be opened or named. It ends well if and only if there was none,
and it changes nothing but the pointers of the dongles it visited. -/
theorem fcdMain_shows (a : Populated (Boot.serve wipe) h view) (s : σ) (host : Endian)
    (query : String → Bytes) (hquery : ∀ path, (query path).length = 64) :
    ∃ (status : Int) (t : σ) (es : List Happening) (devs : DeviceList) (vs : List Visit),
      Program.Runs h (fcdMain host query) s status t es ∧
      Toured es devs vs ∧ Visited devs.paths vs ∧
      (status = exitSuccess ↔ ∀ v ∈ vs, v.result = 0) ∧
      (∀ stream, printed stream es = String.join (vs.map fun v => printed stream v.events)) ∧
      Displayed query (view s).dongle vs (view t).dongle ∧
      Repointed (view s).dongle (view t).dongle vs := by
  obtain ⟨status, t, es, devs, vs, hdebug⟩ := exists_debugRun a s host query hquery
  exact ⟨status, t, es, devs, vs, hdebug.run, hdebug.toured, hdebug.visited, hdebug.status,
    hdebug.output, hdebug.displayed, hdebug.displayed.repointed⟩

end

theorem fcdMain_shows_two :
    let h := Hub.host (Boot.serve (fun _ _ => 0xff))
    ∃ (t : Hub Boot) (es : List Happening) (devs : DeviceList) (vs : List Visit),
      Program.Runs h (fcdMain .little (fun _ => List.replicate 64 0)) hubOfTwo exitSuccess t es ∧
      printed .stdout es = "[left]\tFCD\n\tRange: 0x00000000 - 0x00000030\n" ++
        dump (List.replicate 48 7) ++ "[right]\tFCD\n\tRange: 0x00000000 - 0x00000030\n" ++
        dump (List.replicate 48 0xff) ∧
      printed .stderr es = "" ∧ Visited devs.paths vs ∧ (∀ v ∈ vs, v.result = 0) ∧
      Displayed (fun _ => List.replicate 64 0) hubOfTwo.fleet.dongle vs t.fleet.dongle ∧
      t.fleet.dongle "left" = { hubOfTwo.fleet.dongle "left" with pointer := 48 } := by
  intro h
  obtain ⟨status, t, es, devs, vs, hrun, -, hvisited, hstatus, -, hdisplayed, hkept⟩ :=
    fcdMain_shows (Hub.populated (Boot.serve (fun _ _ => 0xff))) hubOfTwo .little
      (fun _ => List.replicate 64 0) (fun _ => List.length_replicate ..)
  have hended : (Program.run h (fcdMain .little (fun _ => List.replicate 64 0)) hubOfTwo).map
      (fun x => (x.1, (x.2.fleet.dongle "left").pointer)) = some (exitSuccess, 48) := by
    decide +kernel
  have hout : printed .stdout
      (Program.events h (fcdMain .little (fun _ => List.replicate 64 0)) hubOfTwo) =
        "[left]\tFCD\n\tRange: 0x00000000 - 0x00000030\n" ++
        dump (List.replicate 48 7) ++ "[right]\tFCD\n\tRange: 0x00000000 - 0x00000030\n" ++
        dump (List.replicate 48 0xff) := by decide +kernel
  have herr : printed .stderr
      (Program.events h (fcdMain .little (fun _ => List.replicate 64 0)) hubOfTwo) = "" := by
    decide +kernel
  rw [hrun.run] at hended
  simp only [Option.map_some, Option.some.injEq, Prod.mk.injEq] at hended
  obtain ⟨rfl, hpointer⟩ := hended
  obtain ⟨pointer, hleft⟩ := hkept.moved "left"
  rw [hleft] at hpointer
  obtain rfl := hpointer
  rw [hrun.events] at hout herr
  exact ⟨t, es, devs, vs, hrun, hout, herr, hvisited, hstatus.mp rfl, hdisplayed, hleft⟩

end Libfcd.Proofs
