import Libfcd.Devices.Tuner

namespace Libfcd.Proofs
open Interaction Memory Model Devices

variable {σ : Type}

/-- What a setter was given, and what a getter gives back. -/
inductive Arguments where
  | dc (i q : Int32)
  | iq (phase : Int32) (gain : UInt32)
  | frequency (freq : UInt32)
  | byte (value : UInt8)
  deriving DecidableEq

/-- A call that sets a register of the tuner. -/
inductive Setter where
  | dc (i q : Int32)
  | iq (phase : Int32) (gain : UInt32)
  | frequency (freq : UInt32)
  | value (id : UInt32) (value : UInt8)
  | biasTee (state : UInt8)
  deriving DecidableEq

namespace Setter

def call (host : Endian) (dev : Fcd) : Setter → Hid Status
  | .dc i q => fcdSetDcCorrection host (some dev) i q
  | .iq phase gain => fcdSetIqCorrection host (some dev) phase gain
  | .frequency freq => fcdSetFrequencyHz host (some dev) freq
  | .value id v => fcdSetValue (some dev) id v
  | .biasTee state => fcdSetBiasTee (some dev) state

/-- The arguments as a getter would give them back. -/
def arguments : Setter → Arguments
  | .dc i q => .dc i q
  | .iq phase gain => .iq phase gain
  | .frequency freq => .frequency freq
  | .value _ v => .byte v
  | .biasTee state => .byte (if state ≠ 0 then 1 else 0)

/-- A register goes by the command that gets it. -/
def register : Setter → UInt8
  | .dc .. => 107
  | .iq .. => 109
  | .frequency _ => 102
  | .value id _ => 150 + id.toUInt8
  | .biasTee _ => 166

def payload : Setter → Bytes
  | .dc i q => leInt 2 i.toInt ++ leInt 2 q.toInt
  | .iq phase gain => leInt 2 phase.toInt ++ leBytes 2 gain.toNat
  | .frequency freq => leBytes 4 freq.toNat
  | .value _ v => [v]
  | .biasTee state => [if state ≠ 0 then 1 else 0]

/-- The arguments that are in range. -/
def Accepted : Setter → Prop
  | .dc i q => Short i.toInt ∧ Short q.toInt
  | .iq phase gain => Short phase.toInt ∧ gain.toNat < 65536
  | .frequency _ => True
  | .value id _ => id < fcdValueUndefined
  | .biasTee _ => True

instance : DecidablePred Accepted := fun c => by
  cases c <;> simp only [Accepted] <;> infer_instance

/-- The error that the others are turned down with. -/
def refusal : Setter → Errno
  | .dc .. | .iq .. => .eoverflow
  | _ => .einval

theorem call_refused (host : Endian) (dev : Fcd) {c : Setter} (hc : ¬ c.Accepted) :
    c.call host dev = .done (.error c.refusal) := by
  cases c with
  | dc i q => exact fcdSetDcCorrection_overflow host (some dev) hc
  | iq phase gain => exact fcdSetIqCorrection_overflow host (some dev) hc
  | frequency freq => exact absurd trivial hc
  | value id v =>
    have hid : id ≥ fcdValueUndefined := UInt32.not_lt.mp hc
    simp only [call, fcdSetValue, if_pos hid]
    rfl
  | biasTee state => exact absurd trivial hc

/-- The request that an accepted call makes. -/
def request (dev : Fcd) (c : Setter) : Request :=
  ⟨dev.path, [0, match c with
    | .dc .. => 106
    | .iq .. => 108
    | .frequency _ => 101
    | .value id _ => 110 + id.toUInt8
    | .biasTee _ => 126] ++ c.payload, 2⟩

theorem request_dc (dev : Fcd) (i q : Int32) :
    request dev (.dc i q) = setDcRequest dev i.toInt q.toInt := by
  simp [request, payload, setDcRequest]

theorem request_iq (dev : Fcd) (phase : Int32) (gain : UInt32) :
    request dev (.iq phase gain) = setIqRequest dev phase.toInt gain.toNat := by
  simp [request, payload, setIqRequest]

theorem request_biasTee (dev : Fcd) (state : UInt8) : request dev (.biasTee state) =
    setValueRequest dev fcdValueBiasTee (if state ≠ 0 then 1 else 0) := by
  have hcmd : (126 : UInt8) = 110 + fcdValueBiasTee.toUInt8 := by decide
  simp only [request, payload, setValueRequest, hcmd]
  rfl

theorem call_accepted (h : Host σ) (s : σ) (host : Endian) (dev : Fcd) {c : Setter}
    (hc : c.Accepted) {q : Request} (hq : q = c.request dev) :
    Program.Runs h (c.call host dev) s ((converse h q s).1.status q) (converse h q s).2
      ((converse h q s).1.events q) := by
  subst hq
  cases c with
  | dc i q =>
    rw [request_dc]
    exact fcdSetDcCorrection_spec h s host dev hc.1 hc.2
  | iq phase gain =>
    rw [request_iq]
    exact fcdSetIqCorrection_spec h s host dev hc.1 hc.2
  | frequency freq => exact fcdSetFrequencyHz_spec h s host dev freq
  | value id v => exact fcdSetValue_spec h s dev v hc
  | biasTee state =>
    rw [request_biasTee]
    have hid : fcdValueBiasTee < fcdValueUndefined := by decide
    exact fcdSetValue_spec h s dev _ hid

/-- The commands of the value registers lie apart from the others. -/
theorem serve_value {x : UInt8} (v : UInt8) (hx : x.toNat < 17) (d : Tuner) :
    Tuner.serve [0, 110 + x, v] d = (some [], d.store (150 + x) [v]) := by
  have hcmd : (110 + x).toNat = 110 + x.toNat := by
    rw [UInt8.toNat_add]
    exact Nat.mod_eq_of_lt (by simp; omega)
  have hne : ∀ y : UInt8, y.toNat < 110 → 110 + x ≠ y := by
    rintro y hy rfl
    omega
  have hrange : 110 ≤ 110 + x ∧ 110 + x < 127 := by
    simp only [UInt8.le_iff_toNat_le, UInt8.lt_iff_toNat_lt, hcmd]
    simp
    omega
  have hget : 110 + x + 40 = 150 + x := by
    apply UInt8.toNat_inj.mp
    simp
    omega
  simp only [Tuner.serve, List.getD_cons_succ, List.getD_cons_zero, hne 101 (by decide),
    hne 106 (by decide), hne 108 (by decide), if_false, if_pos hrange, hget]
  rfl

theorem serve_request (dev : Fcd) {c : Setter} (hc : c.Accepted) (d : Tuner) :
    Tuner.serve (c.request dev).report d = (some [], d.store c.register c.payload) := by
  cases c with
  | value id v =>
    have hid : id.toUInt8.toNat < 17 := by
      have := UInt32.lt_iff_toNat_lt.mp hc
      simp [fcdValueUndefined] at this
      simp
      omega
    exact serve_value v hid d
  | dc i q => rfl
  | iq phase gain => rfl
  | frequency freq => rfl
  | biasTee state => rfl

/-- A call either succeeds and its payload is kept, or changes nothing. -/
theorem call_effect {h : Host σ} {view : σ → Tuner} (a : Lossless Tuner.serve h view) (s : σ)
    (host : Endian) (dev : Fcd) (c : Setter) :
    ∃ status t es, Program.Runs h (c.call host dev) s status t es ∧
      if status.toBool then c.Accepted ∧ view t = (view s).store c.register c.payload
      else view t = view s := by
  by_cases hc : c.Accepted
  · refine ⟨_, _, _, call_accepted h s host dev hc rfl, ?_⟩
    cases ho : (converse h (c.request dev) s).1.outcome (c.request dev) with
    | error e =>
      have hclean := a.clean _ s e (Nat.le_refl 2) ho
      simpa [Exchange.status, ho, Except.map, Except.toBool] using hclean
    | ok bytes =>
      have hview := (a.honest _ s bytes ho).1
      rw [serve_request dev hc] at hview
      simpa [Exchange.status, ho, Except.map, Except.toBool] using ⟨hc, hview⟩
  · rw [call_refused host dev hc]
    exact ⟨_, s, [], .done h _ s, rfl⟩

end Setter

/-- Setters called one after the other, with the status of each. -/
def callAll (host : Endian) (dev : Fcd) : List Setter → Hid (List Status)
  | [] => pure []
  | c :: cs => do
    let status ← c.call host dev
    let statuses ← callAll host dev cs
    pure (status :: statuses)

/-- The calls that succeeded. -/
def effective (log : List (Setter × Status)) : List Setter :=
  (log.filter (fun x => x.2.toBool)).map Prod.fst

theorem effective_cons (c : Setter) (status : Status) (log : List (Setter × Status)) :
    effective ((c, status) :: log) =
      if status.toBool then c :: effective log else effective log := by
  cases hs : status.toBool <;> simp [effective, hs]

/-- The last of the calls to set a register. -/
def lastSet (register : UInt8) (cs : List Setter) : Option Setter :=
  (cs.filter (fun c => c.register = register)).getLast?

/-- A register holds what was last put into it, or what it held before. -/
theorem foldl_update (cs : List Setter) (m : UInt8 → Bytes) (register : UInt8) :
    cs.foldl (fun m c => Function.update m c.register c.payload) m register =
      match lastSet register cs with
      | some c => c.payload
      | none => m register := by
  induction cs using List.reverseRecOn with
  | nil => rfl
  | append_singleton cs c ih =>
    rw [List.foldl_append, List.foldl_cons, List.foldl_nil]
    by_cases hc : c.register = register
    · simp [lastSet, List.filter_append, hc]
    · rw [Function.update_of_ne (Ne.symm hc), ih]
      simp [lastSet, List.filter_append, hc]

theorem callAll_effect {h : Host σ} {view : σ → Tuner} (a : Lossless Tuner.serve h view) (s : σ)
    (host : Endian) (dev : Fcd) (cs : List Setter) :
    ∃ statuses t es, Program.Runs h (callAll host dev cs) s statuses t es ∧
      statuses.length = cs.length ∧
      (∀ c ∈ effective (cs.zip statuses), c.Accepted) ∧
      (view t).registers = (effective (cs.zip statuses)).foldl
        (fun m c => Function.update m c.register c.payload) (view s).registers := by
  induction cs generalizing s with
  | nil => exact ⟨[], s, [], .done h _ s, rfl, by simp [effective], rfl⟩
  | cons c cs ih =>
    obtain ⟨status, t, es, hrun, heffect⟩ := c.call_effect a s host dev
    obtain ⟨statuses, u, fs, hruns, hlen, hacc, hview⟩ := ih t
    refine ⟨status :: statuses, u, es ++ (fs ++ []), hrun.bind (hruns.bind (.done h _ u)),
      by simp [hlen], ?_, ?_⟩
    · rw [List.zip_cons_cons, effective_cons]
      cases hs : status.toBool with
      | true =>
        rw [hs, if_pos rfl] at heffect
        simpa using ⟨heffect.1, hacc⟩
      | false => simpa using hacc
    · rw [List.zip_cons_cons, effective_cons, hview]
      cases hs : status.toBool with
      | true =>
        rw [hs, if_pos rfl] at heffect
        rw [heffect.2]
        rfl
      | false =>
        rw [hs, if_neg Bool.false_ne_true] at heffect
        rw [heffect]
        rfl

/-- A call that gets a register. The byte that two of them have behind their
pointer at first is `before`. -/
inductive Getter where
  | dc
  | iq
  | frequency
  | value (id : UInt32) (before : UInt8)
  | biasTee (before : UInt8)
  deriving DecidableEq

namespace Getter

def register : Getter → UInt8
  | .dc => 107
  | .iq => 109
  | .frequency => 102
  | .value id _ => 150 + id.toUInt8
  | .biasTee _ => 166

/-- What the caller is left with, when the call succeeds. -/
def call (host : Endian) (dev : Fcd) : Getter → Hid (Except Errno Arguments)
  | .dc => do
    let r ← fcdGetDcCorrection host (some dev)
    pure (r.map (fun x => .dc x.1 x.2))
  | .iq => do
    let r ← fcdGetIqCorrection host (some dev)
    pure (r.map (fun x => .iq x.1 x.2))
  | .frequency => do
    let r ← fcdGetFrequencyHz host (some dev)
    pure (r.map .frequency)
  | .value id before => do
    let (status, after) ← fcdGetValue (some dev) id (some before)
    pure (status.map (fun _ => .byte (after.getD before)))
  | .biasTee before => do
    let (status, after) ← fcdGetBiasTee (some dev) (some before)
    pure (status.map (fun _ => .byte (after.getD before)))

/-- What the getters make of the registers. -/
def reads (d : Tuner) : Getter → Arguments
  | .dc => .dc (dcOf ((d.registers 107).takeD 4 0)).1 (dcOf ((d.registers 107).takeD 4 0)).2
  | .iq => .iq (iqOf ((d.registers 109).takeD 4 0)).1 (iqOf ((d.registers 109).takeD 4 0)).2
  | .frequency => .frequency (frequencyOf ((d.registers 102).takeD 4 0))
  | .value _ before => .byte before
  | .biasTee before => .byte before

/-- The byte behind the pointer is the wanted one from the start, for the two
getters that do not store it there. -/
def Filled (x : Arguments) : Getter → Prop
  | .value _ before => x = .byte before
  | .biasTee before => x = .byte before
  | _ => True

/-- The data of a get are those of the register. -/
theorem fetched {h : Host σ} {view : σ → Tuner} (a : Attached Tuner.serve h view) {s : σ}
    {q : Request} {register : UInt8} {bytes : Bytes}
    (hserve : ∀ d, Tuner.serve q.report d = (some (d.registers register), d))
    (ho : (converse h q s).1.outcome q = .ok bytes) :
    bytes = ((view s).registers register).takeD (q.want - 2) 0 := by
  obtain ⟨-, data, hdata, hbytes⟩ := a.honest q s bytes ho
  rw [hserve] at hdata
  obtain rfl := Option.some.inj hdata
  exact hbytes

/-- A value getter leaves its caller with the byte that was there. -/
theorem call_value (h : Host σ) (s : σ) (host : Endian) (dev : Fcd) (id : UInt32)
    (before : UInt8) :
    ∃ r t es, Program.Runs h (call host dev (.value id before)) s r t es ∧
      ∀ got, r = .ok got → got = .byte before := by
  by_cases hid : id < fcdValueUndefined
  · refine ⟨_, _, _, (fcdGetValue_spec h s dev (some before) hid).bind_done rfl, fun got hr => ?_⟩
    cases hst : (converse h (getValueRequest dev id) s).1.status (getValueRequest dev id) with
    | error e =>
      rw [hst] at hr
      cases hr
    | ok u =>
      rw [hst] at hr
      exact (Except.ok.inj hr).symm
  · have hdone : fcdGetValue (some dev) id (some before) = .done (.error .einval, some before) := by
      rw [fcdGetValue, if_pos (UInt32.not_lt.mp hid)]
      rfl
    rw [call, hdone]
    refine ⟨.error .einval, s, [], .done h _ s, fun got hr => by cases hr⟩

theorem call_reads {h : Host σ} {view : σ → Tuner} (a : Attached Tuner.serve h view) (s : σ)
    (host : Endian) (dev : Fcd) (g : Getter) :
    ∃ r t es, Program.Runs h (g.call host dev) s r t es ∧
      ∀ got, r = .ok got → got = g.reads (view s) := by
  cases g with
  | dc =>
    refine ⟨_, _, _, (fcdGetDcCorrection_spec h s host dev).bind_done rfl, fun got hr => ?_⟩
    cases ho : (converse h (getDcRequest dev) s).1.outcome (getDcRequest dev) with
    | error e =>
      rw [ho] at hr
      cases hr
    | ok bytes =>
      rw [ho, fetched a (fun _ => rfl) ho] at hr
      exact (Except.ok.inj hr).symm
  | iq =>
    refine ⟨_, _, _, (fcdGetIqCorrection_spec h s host dev).bind_done rfl, fun got hr => ?_⟩
    cases ho : (converse h (getIqRequest dev) s).1.outcome (getIqRequest dev) with
    | error e =>
      rw [ho] at hr
      cases hr
    | ok bytes =>
      rw [ho, fetched a (fun _ => rfl) ho] at hr
      exact (Except.ok.inj hr).symm
  | frequency =>
    refine ⟨_, _, _, (fcdGetFrequencyHz_spec h s host dev).bind_done rfl, fun got hr => ?_⟩
    cases ho : (converse h (getFrequencyRequest dev) s).1.outcome (getFrequencyRequest dev) with
    | error e =>
      rw [ho] at hr
      cases hr
    | ok bytes =>
      rw [ho, fetched a (fun _ => rfl) ho] at hr
      exact (Except.ok.inj hr).symm
  | value id before => exact call_value h s host dev id before
  | biasTee before => exact call_value h s host dev fcdValueBiasTee before

theorem ofInt_ofLeInt {i : Int32} (h : Short i.toInt) :
    Int32.ofInt (ofLeInt (leInt 2 i.toInt)) = i := by
  obtain ⟨hl, hu⟩ := h
  rw [ofLeInt_leInt, Int.bmod_eq_of_le (by omega) (by omega), Int32.ofInt_toInt]

theorem ofNat_ofLeBytes {v : UInt32} {n : Nat} (h : v.toNat < 256 ^ n) :
    UInt32.ofNat (ofLeBytes (leBytes n v.toNat)) = v := by
  rw [ofLeBytes_leBytes, Nat.mod_eq_of_lt h, UInt32.ofNat_toNat]

theorem dcOf_payload {i q : Int32} (h : Setter.Accepted (.dc i q)) :
    dcOf ((Setter.payload (.dc i q)).takeD 4 0) = (i, q) := by
  have htake : (leInt 2 i.toInt ++ leInt 2 q.toInt).takeD 4 0 =
      leInt 2 i.toInt ++ leInt 2 q.toInt := by
    rw [List.takeD_eq_take _ (by simp), List.take_of_length_le (by simp)]
  rw [Setter.payload, htake, dcOf, List.take_append_of_le_length (by simp),
    List.drop_append_of_le_length (by simp), List.take_of_length_le (by simp),
    List.drop_of_length_le (by simp), List.nil_append, ofInt_ofLeInt h.1, ofInt_ofLeInt h.2]

theorem iqOf_payload {phase : Int32} {gain : UInt32} (h : Setter.Accepted (.iq phase gain)) :
    iqOf ((Setter.payload (.iq phase gain)).takeD 4 0) = (phase, gain) := by
  have htake : (leInt 2 phase.toInt ++ leBytes 2 gain.toNat).takeD 4 0 =
      leInt 2 phase.toInt ++ leBytes 2 gain.toNat := by
    rw [List.takeD_eq_take _ (by simp), List.take_of_length_le (by simp)]
  rw [Setter.payload, htake, iqOf, List.take_append_of_le_length (by simp),
    List.drop_append_of_le_length (by simp), List.take_of_length_le (by simp),
    List.drop_of_length_le (by simp), List.nil_append, ofInt_ofLeInt h.1, ofNat_ofLeBytes h.2]

theorem frequencyOf_payload (freq : UInt32) :
    frequencyOf ((Setter.payload (.frequency freq)).takeD 4 0) = freq := by
  have htake : (leBytes 4 freq.toNat).takeD 4 0 = leBytes 4 freq.toNat := by
    rw [List.takeD_eq_take _ (by simp), List.take_of_length_le (by simp)]
  rw [Setter.payload, htake, frequencyOf, ofNat_ofLeBytes freq.toNat_lt]

/-- The value registers lie apart from the other three. -/
theorem value_register_ne {id : UInt32} (hid : id < fcdValueUndefined) {y : UInt8}
    (hy : y.toNat < 150) : 150 + id.toUInt8 ≠ y := by
  have hlt := UInt32.lt_iff_toNat_lt.mp hid
  simp only [fcdValueUndefined, UInt32.reduceToNat] at hlt
  rintro rfl
  simp at hy
  omega

/-- A getter of the register that a setter filled gives back its arguments; the
two that store nothing do so just when these stand there already. -/
theorem reads_iff {d : Tuner} {c : Setter} {g : Getter} (hc : c.Accepted)
    (hr : c.register = g.register) (hp : d.registers g.register = c.payload) :
    g.reads d = c.arguments ↔ g.Filled c.arguments := by
  cases g with
  | value id before => exact eq_comm
  | biasTee before => exact eq_comm
  | dc =>
    refine iff_of_true ?_ trivial
    cases c with
    | dc i q =>
      have hp : d.registers 107 = Setter.payload (.dc i q) := hp
      rw [reads, hp, dcOf_payload hc]
      rfl
    | value id v => exact absurd hr (value_register_ne hc (by decide))
    | _ => simp [Setter.register, register] at hr
  | iq =>
    refine iff_of_true ?_ trivial
    cases c with
    | iq phase gain =>
      have hp : d.registers 109 = Setter.payload (.iq phase gain) := hp
      rw [reads, hp, iqOf_payload hc]
      rfl
    | value id v => exact absurd hr (value_register_ne hc (by decide))
    | _ => simp [Setter.register, register] at hr
  | frequency =>
    refine iff_of_true ?_ trivial
    cases c with
    | frequency freq =>
      have hp : d.registers 102 = Setter.payload (.frequency freq) := hp
      rw [reads, hp, frequencyOf_payload]
      rfl
    | value id v => exact absurd hr (value_register_ne hc (by decide))
    | _ => simp [Setter.register, register] at hr

end Getter

/-- The last call to set a register is one of the calls, and sets that register. -/
theorem lastSet_spec {register : UInt8} {cs : List Setter} {c : Setter}
    (h : lastSet register cs = some c) : c ∈ cs ∧ c.register = register := by
  simpa using List.mem_filter.mp (List.mem_of_getLast? h)

/-- Reading after any calls that write: each register holds what the last
successful setter put there, and a getter that succeeds gives back the arguments
of that setter exactly when its own byte is not one it forgets to store. -/
theorem tuner_reads_last_write {h : Host σ} {view : σ → Tuner} (a : Lossless Tuner.serve h view)
    (s : σ) (host : Endian) (dev : Fcd) (cs : List Setter) :
    ∃ (statuses : List Status) (t : σ) (es : List Happening),
      Program.Runs h (callAll host dev cs) s statuses t es ∧ statuses.length = cs.length ∧
      (∀ register, (view t).registers register =
        match lastSet register (effective (cs.zip statuses)) with
        | some c => c.payload
        | none => (view s).registers register) ∧
      (∀ g : Getter, ∃ (r : Except Errno Arguments) (u : σ) (fs : List Happening),
        Program.Runs h (g.call host dev) t r u fs ∧
        (∀ got, r = .ok got → got = g.reads (view t)) ∧
        ∀ c got, lastSet g.register (effective (cs.zip statuses)) = some c → r = .ok got →
          (got = c.arguments ↔ g.Filled c.arguments)) ∧
      ∀ (c : Setter) (u : σ), ¬ c.Accepted →
        Program.Runs h (c.call host dev) u (.error c.refusal) u [] := by
  obtain ⟨statuses, t, es, hrun, hlen, hacc, hview⟩ := callAll_effect a s host dev cs
  have hregs : ∀ register, (view t).registers register =
      match lastSet register (effective (cs.zip statuses)) with
      | some c => c.payload
      | none => (view s).registers register := by
    intro register
    rw [hview, foldl_update]
  refine ⟨statuses, t, es, hrun, hlen, hregs, fun g => ?_, fun c u hc => ?_⟩
  · obtain ⟨r, u, fs, hget, hreads⟩ := g.call_reads a.toAttached t host dev
    refine ⟨r, u, fs, hget, hreads, fun c got hlast hr => ?_⟩
    obtain ⟨hmem, hreg⟩ := lastSet_spec hlast
    have hp : (view t).registers g.register = c.payload := by
      rw [hregs, hlast]
    rw [hreads got hr]
    exact Getter.reads_iff (hacc c hmem) hreg hp
  · rw [c.call_refused host dev hc]
    exact .done h _ u

/-- A value is set, and set again while the dongle cannot be opened. It is got after that
into a byte that holds it already. -/
theorem tuner_reads_last_write_values :
    let h := Link.gated Tuner.serve
    let dev : Fcd := ⟨0, "dongle", 1⟩
    let cs : List Setter := [.value 3 5, .value 3 6]
    ∃ (t u : Link Tuner) (es fs : List Happening),
      Program.Runs h (callAll .little dev cs) ⟨⟨fun _ => []⟩, [], [none, some false]⟩
        [.ok (), .error .enodev] t es ∧
      t.device.registers 153 = [5] ∧
      Program.Runs h (Getter.call .little dev (.value 3 5)) t (.ok (.byte 5)) u fs ∧
      (Arguments.byte 5 = (Setter.value 3 5).arguments ↔
        (Getter.value 3 5).Filled (Setter.value 3 5).arguments) := by
  intro h dev cs
  obtain ⟨statuses, t, es, hrun, -, hregisters, hgetter, -⟩ :=
    tuner_reads_last_write (Link.lossless_gated Tuner.serve_refused)
      ⟨⟨fun _ => []⟩, [], [none, some false]⟩ .little dev cs
  obtain ⟨r, u, fs, hget, -, hgot⟩ := hgetter (.value 3 5)
  have hended : (Program.run h (callAll .little dev cs)
      ⟨⟨fun _ => []⟩, [], [none, some false]⟩).bind (fun x =>
        (Program.run h (Getter.call .little dev (.value 3 5)) x.2).map (fun y => (x.1, y.1))) =
      some ([.ok (), .error .enodev], .ok (.byte 5)) := by decide +kernel
  rw [hrun.run, Option.bind_some, hget.run] at hended
  obtain ⟨rfl, rfl⟩ := Prod.mk.inj (Option.some.inj hended)
  have hlast : lastSet 153 (effective (cs.zip [.ok (), .error .enodev])) = some (.value 3 5) := by
    decide
  refine ⟨t, u, es, fs, hrun, ?_, hget, hgot (.value 3 5) _ hlast rfl⟩
  rw [hregisters, hlast]
  rfl

/-- The value 5 is set and then got, with success, into a byte that was 0 and
still is. -/
theorem fcdGetValue_forgets :
    ∃ (t u : Link Tuner) (es fs : List Happening),
      Program.Runs (Link.gated Tuner.serve) (fcdSetValue (some ⟨0, "dongle", 1⟩) 0 5)
        ⟨⟨fun _ => []⟩, [], []⟩ (.ok ()) t es ∧
      t.device.registers 150 = [5] ∧
      Program.Runs (Link.gated Tuner.serve) (fcdGetValue (some ⟨0, "dongle", 1⟩) 0 (some 0)) t
        (.ok (), some 0) u fs :=
  ⟨_, _, _, _, ⟨rfl, rfl⟩, rfl, rfl, rfl⟩

end Libfcd.Proofs
