import Libfcd.Proofs.Diagnosis
import Libfcd.Proofs.WriteEffect

namespace Libfcd.Proofs
open Interaction Memory Model Devices

variable {σ : Type}

/-- From here on no `cmd` of the second process comes before a `last` of the first. -/
def Calm (cmd last : UInt8) : List (Bool × List Happening) → Prop
  | [] => True
  | (true, _) :: log => Calm cmd last log
  | (false, es) :: log =>
    (Carries es cmd → ∀ x ∈ log, x.1 = true → ¬ Carries x.2 last) ∧ Calm cmd last log

/-- No `cmd` of the second process comes between a `first` of the first process and
a later `last`. -/
def Apart (cmd first last : UInt8) : List (Bool × List Happening) → Prop
  | [] => True
  | (true, es) :: log => if Carries es first then Calm cmd last log else Apart cmd first last log
  | (false, _) :: log => Apart cmd first last log

instance decidableCalm (cmd last : UInt8) : (log : List (Bool × List Happening)) →
    Decidable (Calm cmd last log)
  | [] => inferInstanceAs (Decidable True)
  | (true, _) :: log => decidableCalm cmd last log
  | (false, _) :: log =>
    have := decidableCalm cmd last log
    inferInstanceAs (Decidable (_ ∧ _))

instance decidableApart (cmd first last : UInt8) : (log : List (Bool × List Happening)) →
    Decidable (Apart cmd first last log)
  | [] => inferInstanceAs (Decidable True)
  | (true, es) :: log =>
    have := decidableApart cmd first last log
    inferInstanceAs (Decidable (if Carries es first then Calm cmd last log else _))
  | (false, _) :: log => decidableApart cmd first last log

/-- The second process reads no block while the first relies on the address it has
set, and sets no address between two blocks that the first writes. -/
structure Undisturbed (log : List (Bool × List Happening)) : Prop where
  reads : Apart fcdCmdReadBlock fcdCmdSetByteAddr fcdCmdWriteBlock log
  addresses : Apart fcdCmdSetByteAddr fcdCmdWriteBlock fcdCmdWriteBlock log

theorem Undisturbed.second {es : List Happening} {log : List (Bool × List Happening)}
    (hu : Undisturbed ((false, es) :: log)) : Undisturbed log := ⟨hu.reads, hu.addresses⟩

theorem Apart.skip {cmd first last : UInt8} {es : List Happening}
    {log : List (Bool × List Happening)} (ha : Apart cmd first last ((true, es) :: log))
    (hes : ¬ Carries es first) : Apart cmd first last log := by
  rwa [Apart, if_neg hes] at ha

theorem Apart.calm {cmd first last : UInt8} {es : List Happening}
    {log : List (Bool × List Happening)} (ha : Apart cmd first last ((true, es) :: log))
    (hes : Carries es first) : Calm cmd last log := by
  rwa [Apart, if_pos hes] at ha

/-- The addresses that are left after `k` blocks. -/
theorem drop_addresses (start : UInt32) {k n : Nat} (hk : k < n)
    (hn : start.toNat + 48 * n < 2 ^ 32) :
    ∃ addr, addr.toNat = start.toNat + 48 * k ∧
      (addresses start n).drop k = addr :: (addresses start n).drop (k + 1) := by
  induction k generalizing start n with
  | zero =>
    cases n with
    | zero => omega
    | succ n => exact ⟨start, rfl, rfl⟩
  | succ k ih =>
    cases n with
    | zero => omega
    | succ n =>
      have hadd := toNat_add_48 start (by omega)
      obtain ⟨addr, haddr, hdrop⟩ := ih (start + 48) (n := n) (by omega) (by omega)
      exact ⟨addr, by omega, hdrop⟩

/-- One more block stored is one more block written. -/
theorem written_succ (b : Boot) {data : Bytes} {k : Nat}
    (hfit : b.start.toNat + 48 * (k + 1) ≤ data.length) :
    (written b data k).storeBlock (data.extract (b.start.toNat + 48 * k)
      (b.start.toNat + 48 * (k + 1))) = written b data (k + 1) := by
  have hlen : (data.extract b.start.toNat (b.start.toNat + 48 * k)).length = 48 * k := by
    simp
    omega
  have happend := b.flash.overwrite_append b.start.toNat
    (data.extract b.start.toNat (b.start.toNat + 48 * k))
    (data.extract (b.start.toNat + 48 * k) (b.start.toNat + 48 * (k + 1)))
  rw [hlen] at happend
  have hextract : data.extract b.start.toNat (b.start.toNat + 48 * k) ++
      data.extract (b.start.toNat + 48 * k) (b.start.toNat + 48 * (k + 1)) =
        data.extract b.start.toNat (b.start.toNat + 48 * (k + 1)) := by
    simp only [List.extract_eq_take_drop, Nat.add_sub_cancel_left, Nat.mul_succ,
      Nat.add_sub_add_left, List.take_add, List.drop_drop]
  rw [hextract] at happend
  simp only [written, Boot.storeBlock, happend, Boot.mk.injEq, true_and, and_true]
  omega

/-- What a turn of the diagnostic callback does to a dongle: the address pointer
moves at most, after a block was read or to the start of the range. -/
theorem debug_turn {wipe : Plane UInt8 → Plane UInt8} {h : Host σ} {view : σ → Boot}
    (a : Attached (Boot.serve wipe) h view) {start : UInt32} {p : Hid (Int × Unit)}
    (hp : Converses h (DebugAsks start) (RangeFrom start) p) {s : σ}
    (hs : (view s).start = start) :
    let y := Program.turn h exchanges p s
    Converses h (DebugAsks start) (RangeFrom start) y.rest ∧
      ∃ ptr, view y.state = { view s with pointer := ptr } ∧
        (ptr = (view s).pointer ∨ Carries y.events fcdCmdReadBlock ∨
          (Carries y.events fcdCmdSetByteAddr ∧ ptr = start.toNat)) := by
  intro y
  rcases hp.turn a s with ⟨hview, hrest⟩ | ⟨q, hq, hevents, hstate, hrest⟩
  · exact ⟨hrest, _, hview, .inl rfl⟩
  · have htells : RangeFrom start q (converse h q s).1 := by
      rintro dev ⟨start', stop'⟩ rfl hx
      rw [← hs]
      exact (Boot.rangeIn_eq a hx).1
    refine ⟨hrest htells, ?_⟩
    simp only [y, hstate, hevents, Exchange.carries]
    by_cases hx : (converse h q s).1 = .notOpened
    · exact ⟨_, a.unopened hx, .inl rfl⟩
    · rcases a.converse q s with hv | hv
      · exact ⟨_, hv, .inl rfl⟩
      · rcases hq with hq | hq | hq | ⟨dev, rfl⟩
        · exact ⟨_, hv.trans (Boot.serve_query wipe hq _), .inl rfl⟩
        · exact ⟨_, hv.trans (Boot.serve_asked wipe hq _), .inl rfl⟩
        · exact ⟨_, hv.trans (Boot.serve_look wipe hq _), .inr (.inl ⟨hx, hq⟩)⟩
        · exact ⟨_, hv.trans (congrArg Prod.snd (Boot.serve_address wipe dev start _)),
            .inr (.inr ⟨⟨hx, rfl⟩, rfl⟩)⟩

/-- How far the write has come: what is left of it, the state of the dongle, and
what the log to come must leave alone. A write that was displaced has blocks left
to write, and the log does not let it write them any more. -/
inductive Stage (dev : Fcd) (data : Bytes) (size : UInt32) :
    Hid Int → Boot → List (Bool × List Happening) → Prop
  | ranging (host : Endian) {b : Boot} {log : List (Bool × List Happening)}
      (hu : Undisturbed log) :
      Stage dev data size (fcdBlFlashWrite host (some dev) data size) b log
  | addressing (host : Endian) {b : Boot} {log : List (Bool × List Happening)}
      (hs : Sane b.start b.stop size) (hu : Undisturbed log) :
      Stage dev data size
        (sweepAddress host (some dev) (writeBody dev data) b.start b.stop) b log
  | writing {b : Boot} {k : Nat} {log : List (Bool × List Happening)}
      (hs : Sane b.start b.stop size) (hk : k < blockCount b.start b.stop)
      (hread : Calm fcdCmdReadBlock fcdCmdWriteBlock log)
      (hfirst : k = 0 → Apart fcdCmdSetByteAddr fcdCmdWriteBlock fcdCmdWriteBlock log)
      (hlater : k ≠ 0 → Calm fcdCmdSetByteAddr fcdCmdWriteBlock log) :
      Stage dev data size (sweepBlocks (writeBody dev data)
        ((addresses b.start (blockCount b.start b.stop)).drop k)) (written b data k) log
  | displaced {b : Boot} {addr : UInt32} {addrs : List UInt32}
      {log : List (Bool × List Happening)} (haddr : addr.toNat + 48 ≤ data.length)
      (hlog : ∀ x ∈ log, x.1 = true → ¬ Carries x.2 fcdCmdWriteBlock) :
      Stage dev data size (sweepBlocks (writeBody dev data) (addr :: addrs)) b log
  | ended {b : Boot} {r : Int} {log : List (Bool × List Happening)}
      (hr : r = 0 → b.Matches data) : Stage dev data size (.done r) b log

theorem sweepBlocks_cons (body : UInt32 → Hid (Option Int)) (addr : UInt32)
    (addrs : List UInt32) : sweepBlocks body (addr :: addrs) = body addr >>= fun
      | some r => .done r
      | none => sweepBlocks body addrs := by
  rw [sweepBlocks, Program.scan, bind_assoc]
  congr 1
  funext left
  cases left <;> rfl

section
variable {wipe : Plane UInt8 → Plane UInt8} {h : Host σ} {view : σ → Boot} {dev : Fcd}
  {data : Bytes} {size : UInt32} {log : List (Bool × List Happening)}

/-- The turn of a write that asks for the range. -/
theorem Stage.ranging_turn (a : Attached (Boot.serve wipe) h view) (host : Endian) (s : σ)
    (hu : Undisturbed
      ((true, (converse h (rangeRequest dev) s).1.events (rangeRequest dev)) :: log)) :
    Stage dev data size (sweepRange host (some dev) size (writeBody dev data)
      (((converse h (rangeRequest dev) s).1.outcome (rangeRequest dev)).map rangeOf))
      (view (converse h (rangeRequest dev) s).2) log := by
  have hno : ∀ cmd, cmd ≠ fcdCmdGetByteAddrRange →
      ¬ Carries ((converse h (rangeRequest dev) s).1.events (rangeRequest dev)) cmd :=
    fun cmd hcmd hc => hcmd (Exchange.carries.mp hc).2.symm
  rw [Boot.range_view a]
  cases ho : (converse h (rangeRequest dev) s).1.outcome (rangeRequest dev) with
  | error e => exact .ended (fun hr => by cases hr)
  | ok bytes =>
    have hx : rangeIn dev (converse h (rangeRequest dev) s).1 =
        some ((rangeOf bytes).1, (rangeOf bytes).2) := by
      simp [rangeIn, ho, Except.toOption]
    obtain ⟨hstart, hstop⟩ := Boot.rangeIn_eq a hx
    have hrange : rangeOf bytes = ((view s).start, (view s).stop) := Prod.ext hstart hstop
    simp only [Except.map, hrange]
    by_cases hs : Sane (view s).start (view s).stop size
    · rw [sweepRange_sane host (some dev) (writeBody dev data) hs]
      exact .addressing host hs
        ⟨hu.reads.skip (hno _ (by decide)), hu.addresses.skip (hno _ (by decide))⟩
    · rw [sweepRange_refused host (some dev) (writeBody dev data) hs]
      have hcode := refusal_range (view s).start (view s).stop
      exact .ended (fun hr => by omega)

/-- The turn of a write that sets the address. -/
theorem Stage.addressing_turn (a : Attached (Boot.serve wipe) h view) {s : σ}
    (hs : Sane (view s).start (view s).stop size) (q : Request)
    (hq : q = addressRequest dev (view s).start)
    (hu : Undisturbed ((true, (converse h q s).1.events q) :: log)) :
    Stage dev data size
      (match (converse h q s).1.status q with
        | .error _ => .done (-4)
        | .ok () => sweepBlocks (writeBody dev data)
          (addresses (view s).start (blockCount (view s).start (view s).stop)))
      (view (converse h q s).2) log := by
  cases hx : (⟨q, (converse h q s).1⟩ : Transaction).succeeded with
  | false =>
    obtain ⟨e, he⟩ := status_of_failed hx
    rw [he]
    exact .ended (fun hr => by cases hr)
  | true =>
    have hpos : 0 < blockCount (view s).start (view s).stop := by
      have := hs.1.mul_blockCount
      have := hs.1.1
      omega
    have hview : view (converse h q s).2 = written (view s) data 0 := by
      rw [a.view_of_succeeded hx, hq, Boot.serve_address]
      simp [written]
    rw [status_of_succeeded hx, hview]
    subst hq
    refine .writing (k := 0) hs hpos (hu.reads.calm (carries_of_succeeded hx)) (fun _ => ?_)
      (fun hk => absurd rfl hk)
    exact hu.addresses.skip (fun hc => by cases (Exchange.carries.mp hc).2)

/-- The turn of a write that stores a block where it belongs. -/
theorem Stage.writing_turn (a : Attached (Boot.serve wipe) h view) {s : σ} {b : Boot} {k : Nat}
    (hsize : size.toNat ≤ data.length) (hs : Sane b.start b.stop size)
    (hk : k < blockCount b.start b.stop) (hview : view s = written b data k) (q : Request)
    (hq : q = blockRequest dev (data.extract (b.start.toNat + 48 * k)
      (b.start.toNat + 48 * (k + 1))))
    (hread : Calm fcdCmdReadBlock fcdCmdWriteBlock log)
    (hfirst : k = 0 → Apart fcdCmdSetByteAddr fcdCmdWriteBlock fcdCmdWriteBlock
      ((true, (converse h q s).1.events q) :: log))
    (hlater : k ≠ 0 → Calm fcdCmdSetByteAddr fcdCmdWriteBlock log) :
    Stage dev data size
      (match if (⟨q, (converse h q s).1⟩ : Transaction).succeeded then none else some (-5) with
        | some r => .done r
        | none => sweepBlocks (writeBody dev data)
          ((addresses b.start (blockCount b.start b.stop)).drop (k + 1)))
      (view (converse h q s).2) log := by
  have hend := hs.1.mul_blockCount
  have hfit := Nat.le_trans hs.2 hsize
  cases hx : (⟨q, (converse h q s).1⟩ : Transaction).succeeded with
  | false => exact .ended (fun hr => by cases hr)
  | true =>
    have hcalm : Calm fcdCmdSetByteAddr fcdCmdWriteBlock log := by
      by_cases h0 : k = 0
      · subst hq
        exact (hfirst h0).calm (carries_of_succeeded hx)
      · exact hlater h0
    have hserved : view (converse h q s).2 = written b data (k + 1) := by
      rw [a.view_of_succeeded hx, hview, hq, Boot.serve_block wipe dev (by simp; omega)]
      exact written_succ b (by omega)
    rw [hserved]
    by_cases hlast : k + 1 < blockCount b.start b.stop
    · exact .writing hs hlast hread (fun h0 => by cases h0) (fun _ => hcalm)
    · have hall : k + 1 = blockCount b.start b.stop := by omega
      rw [hall, List.drop_of_length_le (Nat.le_of_eq (length_addresses _ _))]
      exact .ended (fun _ => written_matches b hs hsize)

/-- Whatever turn the write is at, it goes on from stage to stage. -/
theorem Stage.write_turn (a : Attached (Boot.serve wipe) h view) (hsize : size.toNat ≤ data.length)
    {p : Hid Int} {s : σ}
    (hp : Stage dev data size p (view s) ((true, (Program.turn h exchanges p s).events) :: log)) :
    Stage dev data size (Program.turn h exchanges p s).rest
      (view (Program.turn h exchanges p s).state) log := by
  generalize hb : view s = b at hp
  generalize hl : (true, (Program.turn h exchanges p s).events) :: log = l at hp
  cases hp with
  | ranging host hu =>
    subst hb hl
    have hturn := turn_exchange (fcdBlGetAddressRange_spec h s host dev)
      (sweepRange host (some dev) size (writeBody dev data))
    rw [fcdBlFlashWrite_eq, sweep] at hu ⊢
    rw [hturn] at hu ⊢
    exact ranging_turn a host s hu
  | addressing host hs hu =>
    subst hb hl
    rw [sweepAddress, turn_exchange (fcdBlSetAddress_spec h s host dev _)] at hu ⊢
    exact addressing_turn a hs _ rfl hu
  | @writing b k _ hs hk hread hfirst hlater =>
    subst hl
    have hend := hs.1.mul_blockCount
    have hfit := Nat.le_trans hs.2 hsize
    have hlt := b.stop.toNat_lt
    obtain ⟨addr, haddr, hdrop⟩ := drop_addresses b.start hk (by omega)
    have hblock : (pointer data addr).take 48 =
        data.extract (b.start.toNat + 48 * k) (b.start.toNat + 48 * (k + 1)) := by
      rw [pointer, haddr, List.extract_eq_take_drop, Nat.mul_succ, ← Nat.add_assoc,
        Nat.add_sub_cancel_left]
    rw [hdrop, sweepBlocks_cons, turn_exchange (writeBody_runs h s dev data addr (by omega))]
      at hread hfirst hlater ⊢
    exact writing_turn a hsize hs hk hb _ (by rw [hblock]) hread hfirst hlater
  | @displaced _ addr addrs _ haddr hlog =>
    subst hl
    rw [sweepBlocks_cons, turn_exchange (writeBody_runs h s dev data addr haddr)] at hlog ⊢
    have hquiet := hlog _ List.mem_cons_self rfl
    cases hx : (⟨_, (converse h (blockRequest dev ((pointer data addr).take 48)) s).1⟩ :
      Transaction).succeeded with
    | false => exact .ended (fun hr => by cases hr)
    | true =>
      exact absurd (carries_of_succeeded hx) hquiet
  | ended hr =>
    subst hb hl
    exact .ended hr

/-- A turn of the diagnostic callback that the log allows does the write no harm. -/
theorem Stage.debug_turn (hsize : size.toNat ≤ data.length) {p : Hid Int} {b : Boot}
    {es : List Happening} (hp : Stage dev data size p b ((false, es) :: log)) {ptr : Nat}
    (hptr : ptr = b.pointer ∨ Carries es fcdCmdReadBlock ∨
      (Carries es fcdCmdSetByteAddr ∧ ptr = b.start.toNat)) :
    Stage dev data size p { b with pointer := ptr } log := by
  generalize hl : (false, es) :: log = l at hp
  cases hp with
  | ranging host hu =>
    subst hl
    exact .ranging host hu.second
  | addressing host hs hu =>
    subst hl
    exact .addressing (b := { b with pointer := ptr }) host hs hu.second
  | @writing b k _ hs hk hread hfirst hlater =>
    subst hl
    have hlt := b.stop.toNat_lt
    have hend := hs.1.mul_blockCount
    have hfit := Nat.le_trans hs.2 hsize
    obtain ⟨addr, haddr, hdrop⟩ := drop_addresses b.start hk (by omega)
    have hdisplaced : (∀ x ∈ log, x.1 = true → ¬ Carries x.2 fcdCmdWriteBlock) →
        Stage dev data size (sweepBlocks (writeBody dev data)
          ((addresses b.start (blockCount b.start b.stop)).drop k))
          { written b data k with pointer := ptr } log := by
      intro hlog
      rw [hdrop]
      exact .displaced (by omega) hlog
    rcases hptr with rfl | hblock | ⟨haddress, rfl⟩
    · exact .writing hs hk hread.2 hfirst (fun h0 => (hlater h0).2)
    · exact hdisplaced (hread.1 hblock)
    · by_cases h0 : k = 0
      · subst h0
        exact .writing (k := 0) hs hk hread.2 hfirst (fun h0 => absurd rfl h0)
      · exact hdisplaced ((hlater h0).1 haddress)
  | displaced haddr hlog =>
    subst hl
    exact .displaced haddr (fun x hx => hlog x (List.mem_cons_of_mem _ hx))
  | ended hr => exact .ended hr

/-- A write that has returned 0 at the end has left the image in the flash. -/
theorem Stage.returned {p : Hid Int} {b : Boot} (hp : Stage dev data size p b log)
    (hr : p.result = some 0) : b.Matches data := by
  cases hp with
  | ranging host hu => cases hr
  | addressing host hs hu => cases hr
  | @writing b k _ hs hk hread hfirst hlater =>
    obtain ⟨addr, addrs, hdrop⟩ := List.exists_cons_of_length_pos
      (l := (addresses b.start (blockCount b.start b.stop)).drop k) (by simpa using hk)
    rw [hdrop] at hr
    cases hr
  | displaced haddr hlog => cases hr
  | ended h0 =>
    exact h0 (Option.some.inj hr)

end

/-- In every interleaving that does not disturb it, a write that returns 0 has left
the image in the flash. -/
theorem fcdBlFlashWrite_undisturbed {wipe : Plane UInt8 → Plane UInt8} {h : Host σ}
    {view : σ → Boot} (a : Attached (Boot.serve wipe) h view) (s : σ) (host : Endian) (dev : Fcd)
    (data : Bytes) (size : UInt32) (hsize : data.length = size.toNat) (query : Bytes)
    (hquery : query.length = 64) (path : String) (schedule : List Bool) :
    let out := Pair.interleave h exchanges
      ⟨fcdBlFlashWrite host (some dev) data size, funcubeDebug host query path (), s⟩ schedule
    Undisturbed out.2 → out.1.first.result = some 0 → (view out.1.state).Matches data := by
  intro out hu hr
  let start := (view s).start
  let I : Pair Call Call.Answer Int (Int × Unit) σ → List (Bool × List Happening) → Prop :=
    fun x log => (view x.state).start = start ∧
      Converses h (DebugAsks start) (RangeFrom start) x.second ∧
      Stage dev data size x.first (view x.state) log
  have hsize' : size.toNat ≤ data.length := Nat.le_of_eq hsize.symm
  have hfinal : I out.1 [] := by
    refine Pair.interleave_keeps ?_ ?_ schedule
      ⟨rfl, funcubeDebug_converses host hquery path start, .ranging host hu⟩
    · rintro ⟨p, q, t⟩ log ⟨hstart, hq, hp⟩
      exact ⟨turn_keeps a (P := fun b => b.start = start)
        (fun report b hb => (Boot.serve_start wipe report b).trans hb) p hstart, hq,
        hp.write_turn a hsize'⟩
    · rintro ⟨p, q, t⟩ log ⟨hstart, hq, hp⟩
      obtain ⟨hrest, ptr, hview, hptr⟩ := debug_turn a hq hstart
      refine ⟨by simp only [hview]; exact hstart, hrest, ?_⟩
      simp only [hview]
      exact hp.debug_turn hsize' (by rwa [hstart])
  exact hfinal.2.2.returned hr

/-- A dongle with a range of two blocks. -/
def twoBlocks : Boot := { oneBlock with stop := 96 }

/-- A write of two blocks and the diagnostic callback on that dongle. -/
def race : Pair Call Call.Answer Int (Int × Unit) (Link Boot) where
  first := fcdBlFlashWrite .little (some ⟨0, "dongle", 1⟩)
    (List.replicate 48 1 ++ List.replicate 48 2) 96
  second := funcubeDebug .little (List.replicate 64 0) "dongle" ()
  state := ⟨twoBlocks, [], []⟩

/-- The callback sets its address before the first block and reads after the last. -/
theorem fcdBlFlashWrite_undisturbed_early_late :
    let schedule := List.replicate 2 true ++ List.replicate 7 false ++ List.replicate 2 true ++
      List.replicate 51 false
    (race.interleave (Link.host (Boot.serve id)) exchanges schedule).1.state.device.Matches
      (List.replicate 48 1 ++ List.replicate 48 2) := by
  unfold race
  exact fcdBlFlashWrite_undisturbed (Link.attached (Boot.serve id)) ⟨twoBlocks, [], []⟩ .little
    ⟨0, "dongle", 1⟩ (List.replicate 48 1 ++ List.replicate 48 2) 96 (by decide)
    (List.replicate 64 0) (by decide) "dongle" (List.replicate 2 true ++
      List.replicate 7 false ++ List.replicate 2 true ++ List.replicate 51 false)
    ⟨by decide +kernel, by decide +kernel⟩ (by decide +kernel)

/-- Both processes see nothing but success, and the flash is not that of the image. -/
def Spoils (schedule : List Bool) : Prop :=
  let out := race.interleave (Link.host (Boot.serve id)) exchanges schedule
  out.1.first.result = some 0 ∧ out.1.second.result = some (0, ()) ∧
    ¬ out.1.state.device.Matches (List.replicate 48 1 ++ List.replicate 48 2)

instance (schedule : List Bool) : Decidable (Spoils schedule) :=
  inferInstanceAs (Decidable (_ ∧ _ ∧ _))

/-- The callback sets its address between the two blocks, or it reads between the
address and the first of them. -/
theorem funcubeDebug_displaces_block :
    Spoils (List.replicate 3 true ++ List.replicate 7 false ++ [true] ++ List.replicate 51 false) ∧
    Spoils ([true] ++ List.replicate 7 false ++ [true, false, true, true] ++
      List.replicate 50 false) := by
  decide +kernel

end Libfcd.Proofs
