import Libfcd.Proofs.Broadcast

namespace Libfcd.Proofs
open Interaction Memory Model Devices

variable {σ γ : Type}

/-- The path of the first entry of a list, if there is one and it has a path. -/
def firstPath (paths : List (Option String)) : Option String := paths.head?.join

/-- With memory at hand, `fcd_open` without a path takes the first entry, and
gives up if that one has no path. -/
theorem fcdOpen_any (h : Host σ) (s : σ) (a : Allocates h) {devs : DeviceList}
    (hdevs : (enumerating h fcdUsbVid fcdUsbPid (allocating h 8 s).2).1 = devs) :
    ∃ d t es, Program.Runs h (fcdOpen none) s d t es ∧ d.map Fcd.path = firstPath devs.paths := by
  rcases hm : allocating h 8 s with ⟨_ | addr, s1⟩
  · exact absurd (congrArg Prod.fst hm) (a.malloc 8 s)
  rcases he : enumerating h fcdUsbVid fcdUsbPid s1 with ⟨devs', s2⟩
  obtain rfl : devs' = devs := by rw [← hdevs, hm, he]
  have hrun : ∀ {d t es}, Program.Runs h (do
        let kept ← copyFirst devs'
        hidFreeEnumeration devs'
        keepPath addr kept) s2 d t es →
      Program.Runs h (fcdOpen none) s d t
        (⟨.malloc 8, some addr⟩ :: ⟨.hidEnumerate fcdUsbVid fcdUsbPid, devs'⟩ :: es) :=
    fun hrest => runs_malloc hm (runs_enumerate he hrest)
  obtain ⟨id, paths⟩ := devs'
  match paths with
  | [] => exact ⟨none, _, _, hrun (.call (.call (.done h _ _))), rfl⟩
  | none :: rest => exact ⟨none, _, _, hrun (.call (.call (.call (.done h _ _)))), rfl⟩
  | some first :: rest =>
    let devs : DeviceList := ⟨id, some first :: rest⟩
    obtain ⟨block, s3, hcopy⟩ := a.copy first (some devs) (h (.deviceInfo devs) s2).2
    have hkept : Program.Runs h (copyFirst devs) s2 (some (first, some block)) s3
        [⟨.deviceInfo devs, ()⟩, ⟨.strdup first (some devs), (some block : Option Nat)⟩] :=
      .call (Program.Runs.perform (i := Call.strdup first (some devs)) hcopy (.done h _ _))
    exact ⟨some ⟨addr, first, block⟩, _, _, hrun (hkept.bind (.call (.done h _ _))), rfl⟩

/-- An entry without a path stands at the head of a list only when no entry has
a path. -/
def HeadUsable (paths : List (Option String)) : Prop :=
  paths.head? = some none → paths.reduceOption = []

theorem firstPath_eq_head_iff {paths : List (Option String)} :
    firstPath paths = paths.reduceOption.head? ↔ HeadUsable paths := by
  match paths with
  | [] => simp [firstPath, HeadUsable]
  | some first :: rest => simp [firstPath, HeadUsable, List.reduceOption_cons_of_some]
  | none :: rest =>
    simp only [firstPath, HeadUsable, List.head?_cons, List.reduceOption_cons_of_none, forall_const]
    exact eq_comm.trans List.head?_eq_none_iff

/-- `fcd_open` without a path finds the dongle that `fcd_for_each` calls back for
first, or neither finds one, exactly when no usable entry is hidden behind an
entry without a path. -/
theorem fcdOpen_agrees_iff (h : Host σ) (a : Allocates h) (s s' : σ) (paths : List (Option String))
    (hopen : (enumerating h fcdUsbVid fcdUsbPid (allocating h 8 s).2).1.paths = paths)
    (heach : (enumerating h fcdUsbVid fcdUsbPid s').1.paths = paths)
    (fn : String → γ → Hid (Int × γ))
    (hfn : ∀ path context s, ∃ r t es, Program.Runs h (fn path context) s r t es) (context : γ) :
    ∃ (d : Option Fcd) (t : σ) (es : List Happening) (vs : List (CallbackRun γ)) (result : Int)
      (context' : γ) (t' : σ) (fs : List Happening),
      Program.Runs h (fcdOpen none) s d t es ∧
      Program.Runs h (fcdForEach fn context) s' (result, context') t' fs ∧
      Walk paths.reduceOption context vs result context' ∧ (∀ v ∈ vs, Ran h fn v) ∧
      (d.map Fcd.path = vs.head?.map (fun v => v.path) ↔ HeadUsable paths) := by
  obtain ⟨d, t, es, hrun, hd⟩ := fcdOpen_any h s a rfl
  obtain ⟨devs, vs, result, context', t', rfl, hrun', hwalk, hall⟩ := fcdForEach_walk hfn context s'
  rw [heach] at hwalk
  refine ⟨d, t, es, vs, result, context', t', _, hrun, hrun', hwalk, hall, ?_⟩
  rw [hd, hopen, hwalk.head_path]
  exact firstPath_eq_head_iff

/-- A link always has memory to give. -/
theorem link_allocates {D : Type} (serve : Serve D) (paths : List (Option String)) :
    Allocates (listing paths (Link.host serve)) where
  malloc _ _ := by
    rintro ⟨⟩
  copy _ _ s := ⟨0, s, rfl⟩

theorem fcdOpen_agrees_iff_two :
    let h := listing [some "a", none, some "b"] (Link.host (Boot.serve id))
    ∃ (d : Option Fcd) (vs : List (CallbackRun Unit)),
      d.map Fcd.path = vs.head?.map (fun v => v.path) ∧
      ∃ t es, Program.Runs h (fcdOpen none) ⟨oneBlock, [], []⟩ d t es := by
  intro h
  obtain ⟨d, t, es, vs, result, context', t', fs, hrun, -, -, -, hiff⟩ := fcdOpen_agrees_iff h
    (link_allocates (Boot.serve id) [some "a", none, some "b"]) ⟨oneBlock, [], []⟩
    ⟨oneBlock, [], []⟩ [some "a", none, some "b"] rfl rfl
    (fun _ context => pure (0, context)) (fun _ _ s => ⟨_, s, [], .done h _ s⟩) ()
  exact ⟨d, vs, hiff.mpr (fun hnone => by cases hnone), t, es, hrun⟩

/-- A list that begins with an entry without a path: `fcd_for_each` calls back
for the second entry, `fcd_open` finds nothing. -/
theorem fcdOpen_misses_second :
    let h := listing [none, some "b"] (Link.host (Boot.serve id))
    let note : String → List String → Hid (Int × List String) :=
      fun path seen => pure (0, seen ++ [path])
    ∃ (t t' : Link Boot) (es fs : List Happening),
      Program.Runs h (fcdForEach note []) ⟨oneBlock, [], []⟩ (0, ["b"]) t es ∧
      Program.Runs h (fcdOpen none) ⟨oneBlock, [], []⟩ none t' fs :=
  ⟨_, _, _, _, ⟨rfl, rfl⟩, rfl, rfl⟩

end Libfcd.Proofs
