import Libfcd.Model.Outputs
import Libfcd.Proofs.Query
import Libfcd.Proofs.Trimming
import Libfcd.Proofs.Tuner

namespace Libfcd.Proofs
open Interaction Memory Model Devices

variable {σ α : Type}

/-- Everything that has to go right for `fcd_io` to return 0, with the response
that it got. -/
structure Accepts (h : Host σ) (s : σ) (dev : Option Fcd) (cmd iskip : UInt8)
    (idata : Option Bytes) (ilen : UInt8) (odata : Option Buffer) (olen : UInt8)
    (received : Received) : Prop where
  pointers : ¬ BadPointer dev idata ilen odata olen
  transport : ∃ d hidDev s1 count s2 s3, dev = some d ∧
    opening h d.path s = (some hidDev, s1) ∧
    writing h hidDev (frame cmd iskip ((idata.getD []).take (trimIlen iskip ilen).toNat)) s1 =
      (count, s2) ∧
    count ≥ (trimIlen iskip ilen).toNat + 2 + iskip.toNat ∧
    reading h hidDev ((trimOlen olen).toNat + 2) s2 = (received, s3)
  enough : received.count ≥ (trimOlen olen).toNat + 2
  header : (received.stored ((trimOlen olen).toNat + 2)).take 2 = [some cmd, some 1]

/-- A response is accepted when it is long enough and begins as it should; its
data are what stands behind the header. -/
theorem reply_iff_stored {q : Request} {n : Nat} (hn : q.want = n + 2) {r : Received}
    {bytes : Bytes} : reply q r = some bytes ↔ r.count ≥ n + 2 ∧
      (r.stored (n + 2)).take 2 = [some q.command, some 1] ∧
      bytes.map some = (r.stored (n + 2)).drop 2 := by
  rw [reply_eq_some, hn]
  by_cases hc : r.count ≥ n + 2
  · have hst : r.stored (n + 2) = (r.data.takeD (n + 2) 0).map some := by
      rw [Received.stored, Nat.min_eq_right (by omega)]
    obtain ⟨x, y, tail, htail⟩ : ∃ x y tail, r.data.takeD (n + 2) 0 = x :: y :: tail :=
      ⟨_, _, _, rfl⟩
    have hinj : bytes.map some = tail.map some ↔ tail = bytes := by
      rw [List.map_inj_right (fun _ _ => Option.some.inj)]
      exact eq_comm
    rw [hst, htail]
    simp [hc, hinj, and_assoc]
  · simp [hc]

section
variable {h : Host σ} {s : σ} {dev : Fcd} {cmd iskip : UInt8} {idata : Option Bytes}
  {ilen : UInt8} {odata : Option Buffer} {olen : UInt8}

/-- The report is as long as the count that `hid_write` has to reach. -/
theorem length_request (hidata : (trimIlen iskip ilen).toNat ≤ (idata.getD []).length) :
    (request dev cmd iskip (idata.getD []) ilen olen).report.length =
      (trimIlen iskip ilen).toNat + 2 + iskip.toNat := by
  simp only [request, length_frame, List.length_take]
  omega

theorem outcome_of_accepts (hidata : (trimIlen iskip ilen).toNat ≤ (idata.getD []).length)
    {received : Received}
    (ha : Accepts h s (some dev) cmd iskip idata ilen odata olen received) :
    ∃ bytes, (converse h (request dev cmd iskip (idata.getD []) ilen olen) s).1.outcome
        (request dev cmd iskip (idata.getD []) ilen olen) = .ok bytes ∧
      bytes.map some = (received.stored ((trimOlen olen).toNat + 2)).drop 2 := by
  obtain ⟨-, ⟨d, hidDev, s1, count, s2, s3, hd, hopen, hwrite, hcount, hread⟩, henough, hheader⟩ :=
    ha
  obtain rfl := Option.some.inj hd
  obtain ⟨bytes, hbytes⟩ : ∃ bytes : Bytes,
      bytes.map some = (received.stored ((trimOlen olen).toNat + 2)).drop 2 := by
    rw [Received.stored, ← List.map_drop]
    exact ⟨_, rfl⟩
  have hrep := (reply_iff_stored (q := request dev cmd iskip (idata.getD []) ilen olen) rfl).mpr
    ⟨henough, hheader, hbytes⟩
  refine ⟨bytes, outcome_eq_ok.mpr ⟨hidDev, s1, count, s2, received, s3, hopen, hwrite, ?_, hread,
    hrep⟩, hbytes⟩
  rw [length_request hidata]
  exact_mod_cast hcount

theorem accepts_of_outcome (hgood : ¬ BadPointer (some dev) idata ilen odata olen)
    (hidata : (trimIlen iskip ilen).toNat ≤ (idata.getD []).length) {bytes : Bytes}
    (ho : (converse h (request dev cmd iskip (idata.getD []) ilen olen) s).1.outcome
      (request dev cmd iskip (idata.getD []) ilen olen) = .ok bytes) :
    ∃ received, Accepts h s (some dev) cmd iskip idata ilen odata olen received := by
  obtain ⟨hidDev, s1, count, s2, received, s3, hopen, hwrite, hcount, hread, hrep⟩ :=
    outcome_eq_ok.mp ho
  obtain ⟨henough, hheader, -⟩ := (reply_iff_stored rfl).mp hrep
  rw [length_request hidata] at hcount
  exact ⟨received, hgood, ⟨dev, hidDev, s1, count, s2, s3, rfl, hopen, hwrite,
    by exact_mod_cast hcount, hread⟩, henough, hheader⟩

end

/-- An exchange that fails has not been opened, or it was and something went
wrong behind that. -/
theorem outcome_error {h : Host σ} {s : σ} {q : Request} {e : Errno}
    (he : (converse h q s).1.outcome q = .error e) :
    (e = .enodev ∧ (opening h q.path s).1 = none ∧ reports ((converse h q s).1.events q) = []) ∨
      (e = .eio ∧ (opening h q.path s).1 ≠ none) := by
  rcases ho : opening h q.path s with ⟨_ | hidDev, s1⟩
  · simp only [converse, ho, Exchange.outcome, Except.error.injEq] at he ⊢
    exact .inl ⟨he.symm, trivial, rfl⟩
  · right
    refine ⟨?_, by simp⟩
    rcases hw : writing h hidDev q.report s1 with ⟨count, s2⟩
    by_cases hc : count ≥ q.report.length
    · rcases hr : reading h hidDev q.want s2 with ⟨received, s3⟩
      cases hrep : reply q received with
      | none =>
        simp only [converse, ho, hw, hc, if_true, hr, Exchange.outcome, hrep] at he
        exact (Except.error.inj he).symm
      | some bytes => simp [converse, ho, hw, hc, hr, Exchange.outcome, hrep] at he
    · simp only [converse, ho, hw, hc, if_false, Exchange.outcome] at he
      exact (Except.error.inj he).symm

/-- What a call of `fcd_io` comes to: the result `r`, and `odata'` behind the
output pointer. -/
structure Settled (h : Host σ) (s : σ) (dev : Option Fcd) (cmd iskip : UInt8)
    (idata : Option Bytes) (ilen : UInt8) (odata : Option Buffer) (olen : UInt8) (r : Status)
    (odata' : Option Buffer) (es : List Happening) : Prop where
  success : r = .ok () ↔ ∃ received, Accepts h s dev cmd iskip idata ilen odata olen received
  delivered : ∀ received, Accepts h s dev cmd iskip idata ilen odata olen received →
    odata' = odata.map (fun b => (received.stored ((trimOlen olen).toNat + 2)).drop 2 ++
      b.drop (trimOlen olen).toNat)
  untouched : r ≠ .ok () → odata' = odata
  errors : ∀ e, r = .error e → e = .efault ∨ e = .enodev ∨ e = .eio
  efault : r = .error .efault ↔ BadPointer dev idata ilen odata olen
  enodev : r = .error .enodev ↔
    ¬ BadPointer dev idata ilen odata olen ∧ ∃ d, dev = some d ∧ (opening h d.path s).1 = none
  nothing_opened : r = .error .efault → es = []
  nothing_sent : r = .error .enodev → reports es = []

section
variable {h : Host σ} {s : σ} {dev : Option Fcd} {d : Fcd} {cmd iskip : UInt8}
  {idata : Option Bytes} {ilen : UInt8} {odata : Option Buffer} {olen : UInt8}

theorem settled_refused (hbad : BadPointer dev idata ilen odata olen) :
    Settled h s dev cmd iskip idata ilen odata olen (.error .efault) odata [] where
  success := iff_of_false (by simp) (fun ⟨_, ha⟩ => ha.pointers hbad)
  delivered _ ha := absurd hbad ha.pointers
  untouched _ := rfl
  errors _ he := .inl (Except.error.inj he).symm
  efault := iff_of_true rfl hbad
  enodev := iff_of_false (by simp) (fun hn => hn.1 hbad)
  nothing_opened _ := rfl
  nothing_sent _ := rfl

theorem settled_ok (hgood : ¬ BadPointer (some d) idata ilen odata olen)
    (hidata : (trimIlen iskip ilen).toNat ≤ (idata.getD []).length) {bytes : Bytes}
    (ho : (converse h (request d cmd iskip (idata.getD []) ilen olen) s).1.outcome
      (request d cmd iskip (idata.getD []) ilen olen) = .ok bytes) (es : List Happening) :
    Settled h s (some d) cmd iskip idata ilen odata olen (.ok ())
      (settle odata (.ok bytes)).2 es where
  success := iff_of_true rfl (accepts_of_outcome hgood hidata ho)
  delivered received ha := by
    have hlen : bytes.length = (trimOlen olen).toNat := outcome_length ho
    obtain ⟨bytes', hok, hbytes⟩ := outcome_of_accepts hidata ha
    obtain rfl := Except.ok.inj (ho.symm.trans hok)
    simp only [settle, hlen, hbytes]
  untouched hne := absurd rfl hne
  errors _ he := by cases he
  efault := iff_of_false (by simp) hgood
  enodev := by
    apply iff_of_false (by simp)
    intro hsome
    obtain ⟨-, d', hd, hnone⟩ := hsome
    obtain rfl := Option.some.inj hd
    obtain ⟨hidDev, s1, -, -, -, -, hopen, -⟩ := outcome_eq_ok.mp ho
    have hopen : opening h d.path s = (some hidDev, s1) := hopen
    rw [hopen] at hnone
    cases hnone
  nothing_opened he := by cases he
  nothing_sent he := by cases he

theorem settled_error (hgood : ¬ BadPointer (some d) idata ilen odata olen)
    (hidata : (trimIlen iskip ilen).toNat ≤ (idata.getD []).length) {e : Errno}
    (ho : (converse h (request d cmd iskip (idata.getD []) ilen olen) s).1.outcome
      (request d cmd iskip (idata.getD []) ilen olen) = .error e) :
    Settled h s (some d) cmd iskip idata ilen odata olen (.error e) odata
      ((converse h (request d cmd iskip (idata.getD []) ilen olen) s).1.events
        (request d cmd iskip (idata.getD []) ilen olen)) := by
  have hnever : ∀ received, ¬ Accepts h s (some d) cmd iskip idata ilen odata olen received := by
    intro received ha
    obtain ⟨bytes, hok, -⟩ := outcome_of_accepts hidata ha
    rw [ho] at hok
    cases hok
  rcases outcome_error ho with ⟨rfl, hopen, hsent⟩ | ⟨rfl, hopen⟩
  · exact {
      success := iff_of_false (by simp) (fun ⟨received, ha⟩ => hnever received ha)
      delivered := fun received ha => absurd ha (hnever received)
      untouched := fun _ => rfl
      errors := fun e he => .inr (.inl (Except.error.inj he).symm)
      efault := iff_of_false (by simp) hgood
      enodev := iff_of_true rfl ⟨hgood, d, rfl, hopen⟩
      nothing_opened := fun he => by cases he
      nothing_sent := fun _ => hsent }
  · exact {
      success := iff_of_false (by simp) (fun ⟨received, ha⟩ => hnever received ha)
      delivered := fun received ha => absurd ha (hnever received)
      untouched := fun _ => rfl
      errors := fun e he => .inr (.inr (Except.error.inj he).symm)
      efault := iff_of_false (by simp) hgood
      enodev := by
        apply iff_of_false (by simp)
        intro hsome
        obtain ⟨-, d', hd, hnone⟩ := hsome
        obtain rfl := Option.some.inj hd
        exact hopen hnone
      nothing_opened := fun he => by cases he
      nothing_sent := fun he => by cases he }

end

theorem fcdIo_settled (h : Host σ) (s : σ) (dev : Option Fcd) (cmd : UInt8) {iskip : UInt8}
    {idata : Option Bytes} {ilen : UInt8} {odata : Option Buffer} {olen : UInt8}
    (hskip : iskip.toNat ≤ 63) (hidata : ∀ data, idata = some data → ilen.toNat ≤ data.length)
    (hodata : ∀ b, odata = some b → olen.toNat ≤ b.length) :
    ∃ r odata' t es, Program.Runs h (fcdIo dev cmd iskip idata ilen odata olen) s (r, odata') t es ∧
      Settled h s dev cmd iskip idata ilen odata olen r odata' es := by
  by_cases hbad : BadPointer dev idata ilen odata olen
  · rw [fcdIo_refused hbad]
    exact ⟨.error .efault, odata, s, [], .done h _ s, settled_refused hbad⟩
  obtain ⟨d, rfl⟩ : ∃ d, dev = some d :=
    Option.ne_none_iff_exists'.mp (fun hnone => hbad (.inl hnone))
  have hinput : ilen ≠ 0 → idata ≠ none := fun hne hnone => hbad (.inr (.inl ⟨hne, hnone⟩))
  have htrim : (trimIlen iskip ilen).toNat ≤ (idata.getD []).length := by
    have := length_readable hidata hinput
    rw [trimIlen_toNat ilen hskip]
    omega
  have hrun := fcdIo_exchanges h s hbad hidata hodata hskip cmd
  cases ho : (converse h (request d cmd iskip (idata.getD []) ilen olen) s).1.outcome
      (request d cmd iskip (idata.getD []) ilen olen) with
  | ok bytes =>
    simp only [ho] at hrun
    exact ⟨_, _, _, _, hrun, settled_ok hbad htrim ho _⟩
  | error e =>
    simp only [ho] at hrun
    exact ⟨_, _, _, _, hrun, settled_error hbad htrim ho⟩

/-! The getters. -/

/-- A call comes to an end, and one that fails leaves what stands behind its
pointers alone. -/
def Keeps (h : Host σ) (s : σ) (p : Hid (Status × α)) (outs : α) : Prop :=
  ∃ r outs' t es, Program.Runs h p s (r, outs') t es ∧ (r ≠ .ok () → outs' = outs)

theorem keeps_both {β γ : Type} {h : Host σ} {s : σ} {p : Hid (Except Errno (β × γ))}
    (hp : ∃ r t es, Program.Runs h p s r t es) (v : Option β) (w : Option γ) :
    Keeps h s (p >>= fun result => pure (storeBoth v w result)) (v, w) := by
  obtain ⟨r, t, es, hrun⟩ := hp
  cases r with
  | error e => exact ⟨.error e, (v, w), t, es, hrun.bind_done rfl, fun _ => rfl⟩
  | ok x => exact ⟨.ok (), _, t, es, hrun.bind_done rfl, fun hne => absurd rfl hne⟩

section
variable (h : Host σ) (s : σ) (host : Endian) (dev : Option Fcd)

theorem keeps_dc (i q : Option Int32) : Keeps h s (fcdGetDcCorrectionAt host dev i q) (i, q) := by
  apply keeps_both
  cases dev with
  | none => exact ⟨.error .efault, s, [], rfl, rfl⟩
  | some d => exact ⟨_, _, _, fcdGetDcCorrection_spec h s host d⟩

theorem keeps_iq (phase : Option Int32) (gain : Option UInt32) :
    Keeps h s (fcdGetIqCorrectionAt host dev phase gain) (phase, gain) := by
  apply keeps_both
  cases dev with
  | none => exact ⟨.error .efault, s, [], rfl, rfl⟩
  | some d => exact ⟨_, _, _, fcdGetIqCorrection_spec h s host d⟩

theorem keeps_range (start stop : Option UInt32) :
    Keeps h s (fcdBlGetAddressRangeAt host dev start stop) (start, stop) := by
  apply keeps_both
  cases dev with
  | none => exact ⟨.error .efault, s, [], rfl, rfl⟩
  | some d => exact ⟨_, _, _, fcdBlGetAddressRange_spec h s host d⟩

theorem keeps_frequency (freq : UInt32) :
    Keeps h s (fcdGetFrequencyHzAt host dev (some freq)) (some freq) := by
  have hget : ∃ r t es, Program.Runs h (fcdGetFrequencyHz host dev) s r t es := by
    cases dev with
    | none => exact ⟨.error .efault, s, [], rfl, rfl⟩
    | some d => exact ⟨_, _, _, fcdGetFrequencyHz_spec h s host d⟩
  obtain ⟨r, t, es, hrun⟩ := hget
  cases r with
  | error e => exact ⟨.error e, some freq, t, es, hrun.bind_done rfl, fun _ => rfl⟩
  | ok v => exact ⟨.ok (), some v, t, es, hrun.bind_done rfl, fun hne => absurd rfl hne⟩

theorem keeps_value (id : UInt32) (value : Option UInt8) :
    Keeps h s (fcdGetValue dev id value) value := by
  by_cases hid : id ≥ fcdValueUndefined
  · rw [fcdGetValue, if_pos hid]
    exact ⟨_, _, _, _, .done h _ s, fun _ => rfl⟩
  · cases dev with
    | none =>
      rw [fcdGetValue, if_neg hid]
      exact ⟨.error .efault, value, s, [], .done h _ s, fun _ => rfl⟩
    | some d =>
      exact ⟨_, _, _, _, fcdGetValue_spec h s d value (UInt32.not_le.mp hid), fun _ => rfl⟩

theorem keeps_block (block : Option Buffer) (hblock : ∀ b, block = some b → 48 ≤ b.length) :
    Keeps h s (fcdBlReadBlock dev block) block := by
  have hnone : ∀ data : Bytes, none = some data → (0 : UInt8).toNat ≤ data.length := by simp
  have hroom : ∀ b, block = some b → (48 : UInt8).toNat ≤ b.length := hblock
  obtain ⟨r, odata', t, es, hrun, hsettled⟩ := fcdIo_settled h s dev fcdCmdReadBlock
    (by decide : (0 : UInt8).toNat ≤ 63) hnone hroom
  exact ⟨r, odata', t, es, hrun, hsettled.untouched⟩

/-- `fcd_query` returns NULL when it fails. -/
theorem keeps_query {str : Buffer} {len : Int32} (hpos : 1 ≤ len.toInt)
    (hlen : str.length = len.toInt.toNat) :
    ∃ ok str' t es, Program.Runs h (fcdQuery dev (some str) len) s (ok, str') t es ∧
      (ok = false → str' = some str) := by
  cases dev with
  | none => exact ⟨false, some str, s, [], .done h _ s, fun _ => rfl⟩
  | some d =>
    have hquery := fcdQuery_spec h s d hpos hlen
    cases ho : (converse h (queryRequest d str.length) s).1.outcome
        (queryRequest d str.length) with
    | error e =>
      simp only [ho] at hquery
      exact ⟨_, _, _, _, hquery, fun _ => rfl⟩
    | ok bytes =>
      simp only [ho] at hquery
      exact ⟨_, _, _, _, hquery, fun hf => by cases hf⟩

end

/-- What every getter owes its caller when it fails. -/
structure GettersKeep (h : Host σ) (s : σ) (host : Endian) (dev : Option Fcd) : Prop where
  dc : ∀ i q, Keeps h s (fcdGetDcCorrectionAt host dev i q) (i, q)
  iq : ∀ phase gain, Keeps h s (fcdGetIqCorrectionAt host dev phase gain) (phase, gain)
  frequency : ∀ freq, Keeps h s (fcdGetFrequencyHzAt host dev (some freq)) (some freq)
  value : ∀ id value, Keeps h s (fcdGetValue dev id value) value
  biasTee : ∀ state, Keeps h s (fcdGetBiasTee dev state) state
  range : ∀ start stop, Keeps h s (fcdBlGetAddressRangeAt host dev start stop) (start, stop)
  block : ∀ block, (∀ b, block = some b → 48 ≤ b.length) →
    Keeps h s (fcdBlReadBlock dev block) block
  query : ∀ (str : Buffer) (len : Int32), 1 ≤ len.toInt → str.length = len.toInt.toNat →
    ∃ ok str' t es, Program.Runs h (fcdQuery dev (some str) len) s (ok, str') t es ∧
      (ok = false → str' = some str)

/-- One exchange is all or nothing, for every transport, and no getter stores
anything when it fails. -/
theorem fcdIo_all_or_nothing (h : Host σ) (s : σ) (dev : Option Fcd) (cmd iskip : UInt8)
    (idata : Option Bytes) (ilen : UInt8) (odata : Option Buffer) (olen : UInt8)
    (hskip : iskip = 0 ∨ iskip = 1) (hidata : ∀ data, idata = some data → ilen.toNat ≤ data.length)
    (hodata : ∀ b, odata = some b → olen.toNat ≤ b.length) :
    (∃ (r : Status) (odata' : Option Buffer) (t : σ) (es : List Happening),
      Program.Runs h (fcdIo dev cmd iskip idata ilen odata olen) s (r, odata') t es ∧
      Settled h s dev cmd iskip idata ilen odata olen r odata' es) ∧
    ∀ host, GettersKeep h s host dev := by
  have hfits : iskip.toNat ≤ 63 := by
    rcases hskip with rfl | rfl <;> decide
  exact ⟨fcdIo_settled h s dev cmd hfits hidata hodata, fun host => {
    dc := keeps_dc h s host dev
    iq := keeps_iq h s host dev
    frequency := keeps_frequency h s host dev
    value := keeps_value h s dev
    biasTee := keeps_value h s dev fcdValueBiasTee
    range := keeps_range h s host dev
    block := keeps_block h s dev
    query := fun _ _ => keeps_query h s dev }⟩

/-- A block is sent while the dongle answers and when it does not. -/
theorem fcdIo_all_or_nothing_lost_answer :
    ∃ (r : Status) (odata' : Option Buffer) (t : Link Boot) (es : List Happening),
      Program.Runs (Link.host (Boot.serve id))
        (fcdIo (some ⟨0, "dongle", 1⟩) 27 1 (some (List.replicate 48 7)) 48 none 0)
        ⟨oneBlock, [], [none, none, some true]⟩ (r, odata') t es ∧
      Settled (Link.host (Boot.serve id)) ⟨oneBlock, [], [none, none, some true]⟩
        (some ⟨0, "dongle", 1⟩) 27 1 (some (List.replicate 48 7)) 48 none 0 r odata' es :=
  (fcdIo_all_or_nothing (Link.host (Boot.serve id)) ⟨oneBlock, [], [none, none, some true]⟩
    (some ⟨0, "dongle", 1⟩) 27 1 (some (List.replicate 48 7)) 48 none 0 (.inr rfl) (by simp)
    (by simp)).1

end Libfcd.Proofs
