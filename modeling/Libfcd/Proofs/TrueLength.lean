import Libfcd.Proofs.Job

namespace Libfcd.Proofs
open Interaction Memory Model Devices

variable {σ : Type}

/-- A write judges the image by its length: it refuses one that ends before the
range does and no other, and what it sends for an address is the byte there. -/
structure WritesTrue (image : Bytes) (start stop : UInt32) (result : Int)
    (ts : List Transaction) : Prop where
  refused : result = -3 ↔ stop.toNat > image.length
  sent : result ≠ -3 → ∀ k t, ts[k + 2]? = some t → ∀ i < 48,
    t.request.report[3 + i]? = image[start.toNat + 48 * k + i]?

/-- A verification judges it likewise: a block that was read is the last, with the
result 1, if a byte of it is not the one at its address. -/
structure VerifiesTrue (image : Bytes) (start stop : UInt32) (result : Int)
    (ts : List Transaction) : Prop where
  refused : result = -3 ↔ stop.toNat > image.length
  compared : result ≠ -3 → ∀ k t bytes, ts[k + 2]? = some t →
    t.exchange.outcome t.request = .ok bytes →
    ((result = 1 ∧ ts.length = k + 3) ↔
      ∃ i < 48, bytes[i]? ≠ image[start.toNat + 48 * k + i]?)

theorem getElem?_imageBlock (data : Bytes) (start : UInt32) (k : Nat) {i : Nat} (hi : i < 48) :
    (imageBlock data start k)[i]? = data[start.toNat + 48 * k + i]? := by
  rw [imageBlock, List.extract_eq_take_drop, List.getElem?_take, if_pos (by omega),
    List.getElem?_drop]

/-- A block as long as it should be is that of the image if its bytes are. -/
theorem ne_imageBlock_iff {bytes : Bytes} (hlen : bytes.length = 48) (data : Bytes)
    (start : UInt32) (k : Nat) : bytes ≠ imageBlock data start k ↔
      ∃ i < 48, bytes[i]? ≠ data[start.toNat + 48 * k + i]? := by
  constructor
  · intro hne
    by_contra hall
    refine hne (List.ext_getElem? (fun i => ?_))
    by_cases hi : i < 48
    · rw [getElem?_imageBlock data start k hi]
      by_contra hc
      exact hall ⟨i, hi, hc⟩
    · rw [List.getElem?_eq_none (by omega), List.getElem?_eq_none]
      simp [imageBlock]
      omega
  · rintro ⟨i, hi, hc⟩ rfl
    exact hc (getElem?_imageBlock data start k hi)

/-- A step sees the length modulo 2^32 and refuses by that. -/
theorem refused_iff {stop : UInt32} {size : UInt64} {result : Int} {len : Nat}
    (hlen : len = size.toNat) (hresult : result = -3 ↔ stop > size.toUInt32) :
    (result = -3 ↔ stop.toNat > len) ↔
      size.toNat < UInt32.size ∨ stop.toNat ≤ size.toNat % UInt32.size := by
  have hlt : stop.toNat < UInt32.size := stop.toNat_lt
  have hmod : size.toUInt32.toNat = size.toNat % UInt32.size := UInt64.toNat_toUInt32 size
  have hle := Nat.mod_le size.toNat UInt32.size
  have hstop : stop > size.toUInt32 ↔ stop.toNat > size.toNat % UInt32.size := by
    rw [← hmod]
    exact UInt32.lt_iff_toNat_lt
  rw [hresult, hstop, hlen]
  by_cases hsmall : size.toNat < UInt32.size
  · rw [Nat.mod_eq_of_lt hsmall]
    exact iff_of_true Iff.rfl (.inl hsmall)
  · rw [or_iff_right hsmall]
    omega

section
variable {dev : Fcd} {image : Bytes} {start stop : UInt32} {size : UInt32} {x : Exchange}
  {y : UInt32 → Exchange} {result : Int} {ts : List Transaction}

theorem Named.too_small_iff (h : Named dev size x y result ts)
    (hx : rangeIn dev x = some (start, stop)) (hreg : Regular start stop) :
    result = -3 ↔ stop > size := by
  rw [h.too_small]
  constructor
  · intro hsome
    obtain ⟨start', stop', hx', -, hsize⟩ := hsome
    obtain ⟨-, rfl⟩ := rangeIn_unique hx' hx
    exact hsize
  · exact fun hsize => ⟨start, stop, hx, regular_iff_lt.mp hreg, hsize⟩

theorem WriteNamed.sent (h : WriteNamed dev image x result ts)
    (hx : rangeIn dev x = some (start, stop)) {k : Nat} {t : Transaction}
    (ht : ts[k + 2]? = some t) {i : Nat} (hi : i < 48) :
    t.request.report[3 + i]? = image[start.toNat + 48 * k + i]? := by
  rw [h.blocks start stop k t hx ht, ← getElem?_imageBlock image start k hi, Nat.add_comm 3 i]
  rfl

/-- What a block that was read says of the result. -/
theorem VerifyNamed.compared (h : VerifyNamed dev image x result ts)
    (hx : rangeIn dev x = some (start, stop)) {k : Nat} {t : Transaction}
    (ht : ts[k + 2]? = some t) {bytes : Bytes}
    (hok : t.exchange.outcome t.request = .ok bytes) :
    (result = 1 ∧ ts.length = k + 3) ↔
      ∃ i < 48, bytes[i]? ≠ image[start.toNat + 48 * k + i]? := by
  have hlen : bytes.length = 48 := by
    have := outcome_length hok
    rwa [h.reads k t ht] at this
  rw [← ne_imageBlock_iff hlen]
  constructor
  · intro hsome
    obtain ⟨h1, hlast⟩ := hsome
    obtain ⟨start', stop', k', t', bytes', hx', ht', hok', hne, -⟩ := h.mismatch.mp h1
    obtain ⟨rfl, rfl⟩ := rangeIn_unique hx' hx
    have hlast' := h.ends _ _ k' t' bytes' hx ht' hok' hne
    obtain rfl : k' = k := by omega
    obtain rfl := Option.some.inj (ht'.symm.trans ht)
    rwa [← Except.ok.inj (hok'.symm.trans hok)]
  · intro hne
    have hlast := h.ends start stop k t bytes hx ht hok hne
    exact ⟨h.mismatch.mpr ⟨start, stop, k, t, bytes, hx, ht, hok, hne,
      h.before start stop k t hx ht⟩, hlast⟩

end

/-- The steps of a job that look at the image judge it by its length exactly if
that fits the `unsigned int` it is handed on in, or what is left of it there
still covers the range. -/
theorem steps_judge_length_iff (h : Host σ) (s : σ) (host : Endian) (path : String) (fcd : Fcd)
    (ctx : FlashContext) (hlen : ctx.image.length = ctx.size.toNat) (start stop : UInt32)
    (hx : rangeIn fcd (ranging h fcd s).1 = some (start, stop)) (hreg : Regular start stop) :
    (ctx.wants actionWrite = true → ∃ (w : Int) (t : σ) (ws : List Transaction)
      (ms : List Happening),
      Program.Runs h (flashWrite host path fcd ctx 0) s w t
        (ws.flatMap Transaction.events ++ ms) ∧ reports ms = [] ∧
      (WritesTrue ctx.image start stop w ws ↔
        ctx.size.toNat < UInt32.size ∨ stop.toNat ≤ ctx.size.toNat % UInt32.size)) ∧
    (ctx.wants actionVerify = true → ∃ (v : Int) (t : σ) (vs : List Transaction)
      (ms : List Happening),
      Program.Runs h (flashVerify host path fcd ctx 0) s v t
        (vs.flatMap Transaction.events ++ ms) ∧ reports ms = [] ∧
      (VerifiesTrue ctx.image start stop v vs ↔
        ctx.size.toNat < UInt32.size ∨ stop.toNat ≤ ctx.size.toNat % UInt32.size)) := by
  have hfit := size_le_image hlen
  refine ⟨fun hwants => ?_, fun hwants => ?_⟩
  · obtain ⟨w, u, ws, hwrite, hw, hwc⟩ := fcdBlFlashWrite_named h s host fcd hfit
    obtain ⟨t, ms, hrun, hsay⟩ := guarded_runs hwrite hwants
      (fun result => "[" ++ path ++ "] write: " ++ errorMsg result ++ "\n")
    refine ⟨w, t, ws, ms, hrun, complain_quiet hsay, ?_⟩
    rw [← refused_iff hlen (hw.too_small_iff hx hreg)]
    exact ⟨fun hj => hj.refused, fun hr => ⟨hr, fun _ k t ht i hi => hwc.sent hx ht hi⟩⟩
  · obtain ⟨v, u, vs, hverify, hv, hvc⟩ := fcdBlFlashVerify_named h s host fcd hfit
    obtain ⟨t, ms, hrun, hsay⟩ := guarded_runs hverify hwants
      (fun result => "[" ++ path ++ "] verify: " ++ errorMsg result ++ "\n")
    refine ⟨v, t, vs, ms, hrun, complain_quiet hsay, ?_⟩
    rw [← refused_iff hlen (hv.too_small_iff hx hreg)]
    exact ⟨fun hj => hj.refused, fun hr => ⟨hr, fun _ k t bytes ht hok => hvc.compared hx ht hok⟩⟩

theorem steps_judge_length_iff_one_block :
    let ctx : FlashContext := ⟨actionWrite, 2000, some ⟨1, List.replicate 48 7⟩, 48⟩
    ∃ (w : Int) (t : Link Boot) (ws : List Transaction) (ms : List Happening),
      Program.Runs (Link.host (Boot.serve id)) (flashWrite .little "dongle" ⟨0, "dongle", 1⟩ ctx 0)
        ⟨oneBlock, [], []⟩ w t (ws.flatMap Transaction.events ++ ms) ∧
      WritesTrue ctx.image 0 48 w ws := by
  intro ctx
  obtain ⟨hwrite, -⟩ := steps_judge_length_iff (Link.host (Boot.serve id)) ⟨oneBlock, [], []⟩
    .little "dongle" ⟨0, "dongle", 1⟩ ctx (by decide) 0 48 (by decide) (by decide)
  obtain ⟨w, t, ws, ms, hrun, -, htrue⟩ := hwrite (by decide)
  exact ⟨w, t, ws, ms, hrun, htrue.mpr (.inl (by decide))⟩

/-- A job with an image of 2^32 bytes, of whose length nothing is left in 32 bits. -/
def largeImage : FlashContext :=
  ⟨actionWrite, 2000, some ⟨1, List.replicate 4294967296 7⟩, 4294967296⟩

theorem length_largeImage : largeImage.image.length = 4294967296 := by
  simp only [largeImage, FlashContext.image, Option.map_some, Option.getD_some,
    List.length_replicate]

/-- It is refused as too small for a range of its first 48 bytes. -/
theorem flashWrite_refuses_large :
    let h := Link.host (Boot.serve id)
    let s : Link Boot := ⟨oneBlock, [], []⟩
    let fcd : Fcd := ⟨0, "dongle", 1⟩
    largeImage.image.length = largeImage.size.toNat ∧
      rangeIn fcd (ranging h fcd s).1 = some (0, 48) ∧ Regular 0 48 ∧
      ∃ (t : Link Boot) (ws : List Transaction) (ms : List Happening),
        Program.Runs h (flashWrite .little "dongle" fcd largeImage 0) s (-3) t
          (ws.flatMap Transaction.events ++ ms) ∧ ¬ WritesTrue largeImage.image 0 48 (-3) ws := by
  intro h s fcd
  have hx : rangeIn fcd (ranging h fcd s).1 = some (0, 48) := by decide
  have hsize : largeImage.size.toUInt32 = 0 := rfl
  have hfit : largeImage.size.toUInt32.toNat ≤ largeImage.image.length := by
    rw [hsize]
    exact Nat.zero_le _
  obtain ⟨w, u, ws, hrun, hw, -⟩ := fcdBlFlashWrite_named h s .little fcd hfit
  have hcode : w = -3 := by
    rw [hw.too_small_iff hx (by decide), hsize]
    decide
  subst hcode
  obtain ⟨t, ms, hstep, -⟩ := guarded_runs hrun (rfl : true = true)
    (fun result => "[dongle] write: " ++ errorMsg result ++ "\n")
  refine ⟨length_largeImage, hx, by decide, t, ws, ms, hstep, fun htrue => ?_⟩
  have hshort := htrue.refused.mp rfl
  rw [length_largeImage] at hshort
  exact absurd hshort (by decide)

end Libfcd.Proofs
