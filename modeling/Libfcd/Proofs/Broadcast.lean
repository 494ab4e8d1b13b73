import Libfcd.Proofs.FlashTool

namespace Libfcd.Proofs
open Interaction Memory Model Devices

variable {σ γ : Type}

/-- A call of a callback, with what stood behind its context pointer before and
after. -/
structure CallbackRun (γ : Type) extends Visit where
  before : γ
  after : γ

/-- The calls that a traversal owes to a list of paths: each path in order, each
with the context that the call before it left, up to the first one that fails,
whose result is that of the whole. -/
inductive Walk : List String → γ → List (CallbackRun γ) → Int → γ → Prop where
  | done (context : γ) : Walk [] context [] 0 context
  | pass {paths : List String} {vs : List (CallbackRun γ)} {result : Int} {context' : γ}
      (v : CallbackRun γ) (hv : v.result = 0) (rest : Walk paths v.after vs result context') :
      Walk (v.path :: paths) v.before (v :: vs) result context'
  | fail (paths : List String) (v : CallbackRun γ) (hv : v.result ≠ 0) :
      Walk (v.path :: paths) v.before [v] v.result v.after

namespace Walk

variable {paths : List String} {context context' : γ} {vs : List (CallbackRun γ)} {result : Int}

/-- There is a first call whenever there is a path, and it gets the first. -/
theorem head_path (h : Walk paths context vs result context') :
    vs.head?.map (fun v => v.path) = paths.head? := by
  cases h <;> rfl

theorem result_eq_zero (h : Walk paths context vs result context') (hr : result = 0) :
    vs.map (fun v => v.path) = paths := by
  induction h with
  | done context => rfl
  | pass v hv rest ih => rw [List.map_cons, ih hr]
  | fail paths v hv => exact absurd hr hv

/-- Calls that all succeed make a success. -/
theorem result_of_succeeded (h : Walk paths context vs result context')
    (hvs : ∀ v ∈ vs, v.result = 0) : result = 0 := by
  induction h with
  | done context => rfl
  | pass v hv rest ih => exact ih (fun w hw => hvs w (by simp [hw]))
  | fail paths v hv => exact absurd (hvs v (by simp)) hv

end Walk

/-- The events of the loop over a list: each entry is looked at before and, if
the loop goes on, after its call. -/
def browsed (devs : DeviceList) : List (Option String) → List (CallbackRun γ) → List Happening
  | none :: paths, vs =>
    ⟨.deviceInfo devs, ()⟩ :: ⟨.deviceInfo devs, ()⟩ :: browsed devs paths vs
  | some _ :: paths, v :: vs =>
    if v.result = 0 then
      ⟨.deviceInfo devs, ()⟩ :: v.events ++ ⟨.deviceInfo devs, ()⟩ :: browsed devs paths vs
    else ⟨.deviceInfo devs, ()⟩ :: v.events
  | _, _ => []

/-- The callback did run like this. -/
def Ran (h : Host σ) (fn : String → γ → Hid (Int × γ)) (v : CallbackRun γ) : Prop :=
  ∃ s t, Program.Runs h (fn v.path v.before) s (v.result, v.after) t v.events

section
variable {h : Host σ} {fn : String → γ → Hid (Int × γ)}

/-- The loop of `fcd_for_each`, by induction over the entries still to come. -/
theorem visitEach_walk (hfn : ∀ path context s, ∃ r t es, Program.Runs h (fn path context) s r t es)
    (devs : DeviceList) (paths : List (Option String)) (context : γ) (s : σ) :
    ∃ vs result context' t, Program.Runs h (visitEach fn devs paths context) s (result, context') t
        (browsed devs paths vs) ∧
      Walk paths.reduceOption context vs result context' ∧ ∀ v ∈ vs, Ran h fn v := by
  induction paths generalizing context s with
  | nil => exact ⟨[], 0, context, s, .done h _ s, .done context, by simp⟩
  | cons path rest ih =>
    let s1 := (h (.deviceInfo devs) s).2
    cases path with
    | none =>
      obtain ⟨vs, result, context', t, hrun, hwalk, hall⟩ :=
        ih context (h (.deviceInfo devs) s1).2
      exact ⟨vs, result, context', t, .call (.call hrun), hwalk, hall⟩
    | some path =>
      obtain ⟨⟨r, after⟩, u, es, hcall⟩ := hfn path context s1
      let v : CallbackRun γ := ⟨⟨path, r, es⟩, context, after⟩
      have hv : Ran h fn v := ⟨s1, u, hcall⟩
      by_cases hr : r = 0
      · obtain ⟨vs, result, context', t, hrun, hwalk, hall⟩ :=
          ih after (h (.deviceInfo devs) u).2
        refine ⟨v :: vs, result, context', t, ?_, .pass v hr hwalk, by simpa [hv] using hall⟩
        have hevents : browsed devs (some path :: rest) (v :: vs) =
            ⟨.deviceInfo devs, ()⟩ :: es ++ ⟨.deviceInfo devs, ()⟩ :: browsed devs rest vs :=
          if_pos hr
        rw [hevents]
        refine .call (hcall.bind ?_)
        simp only [ne_eq, hr, not_true_eq_false, if_false]
        exact .call hrun
      · refine ⟨[v], r, after, u, ?_, .fail rest.reduceOption v hr, by simpa using hv⟩
        have hevents : browsed devs (some path :: rest) [v] = ⟨.deviceInfo devs, ()⟩ :: es :=
          if_neg hr
        rw [hevents]
        refine .call (hcall.bind_done ?_)
        simp only [ne_eq, hr, not_false_eq_true, if_true]
        rfl

theorem fcdForEach_walk
    (hfn : ∀ path context s, ∃ r t es, Program.Runs h (fn path context) s r t es) (context : γ)
    (s : σ) :
    ∃ devs vs result context' t, devs = (enumerating h fcdUsbVid fcdUsbPid s).1 ∧
      Program.Runs h (fcdForEach fn context) s (result, context') t
        (⟨.hidEnumerate fcdUsbVid fcdUsbPid, devs⟩ :: browsed devs devs.paths vs ++
          [⟨.hidFreeEnumeration devs, ()⟩]) ∧
      Walk devs.paths.reduceOption context vs result context' ∧ ∀ v ∈ vs, Ran h fn v := by
  rcases he : enumerating h fcdUsbVid fcdUsbPid s with ⟨devs, s1⟩
  obtain ⟨vs, result, context', t, hrun, hwalk, hall⟩ :=
    visitEach_walk hfn devs devs.paths context s1
  refine ⟨devs, vs, result, context', (h (.hidFreeEnumeration devs) t).2, rfl, ?_, hwalk, hall⟩
  exact runs_enumerate he (hrun.bind (.call (.done h _ _)))

end

/-- The C library always has memory to give. -/
structure Allocates (h : Host σ) : Prop where
  malloc : ∀ size s, (allocating h size s).1 ≠ none
  copy : ∀ text entry s, ∃ (block : Nat) (t : σ), h (.strdup text entry) s = (some block, t)

/-- With memory at hand, a dongle is opened unless hidapi refuses. -/
theorem Allocates.notOpened {h : Host σ} (a : Allocates h) {path : String} {s : σ}
    (hd : (attempt h path s).1.device path = none) :
    ∃ addr, (attempt h path s).1 = .notOpened addr := by
  rcases hm : allocating h 8 s with ⟨_ | addr, s1⟩
  · exact absurd (congrArg Prod.fst hm) (a.malloc 8 s)
  · rcases ho : opening h path s1 with ⟨_ | dev, s2⟩
    · exact ⟨addr, by simp [attempt, hm, ho]⟩
    · obtain ⟨block, s3, hcopy⟩ := a.copy path none s2
      have hcopying : copying h path s2 = (some block, s3) := hcopy
      simp [attempt, hm, ho, hcopying, Opening.device] at hd

/-- A visit that resets: with a dongle that could be opened it makes one exchange
with the command, whatever comes of that, and goes on. -/
def ResetOnce (h : Host σ) (cmd : UInt8) (v : Visit) : Prop :=
  v.result = 0 ∧ ∃ o x, v.events = resetEvents v.path cmd o x ∧
    (Allocates h → o.device v.path = none → ∃ addr, o = .notOpened addr)

theorem resetOnce_of_ran {h : Host σ} {cmd : UInt8} {v : CallbackRun UInt8}
    (hv : Ran h fcdReset v) (hcmd : v.before = cmd) :
    v.after = cmd ∧ ResetOnce h cmd v.toVisit := by
  subst hcmd
  obtain ⟨s, t, hrun⟩ := hv
  obtain ⟨x, u, hreset⟩ := fcdReset_runs h v.path v.before s
  obtain ⟨hresult, -, hevents⟩ := hrun.unique hreset
  exact ⟨congrArg Prod.snd hresult, congrArg Prod.fst hresult, _, x, hevents, fun a => a.notOpened⟩

/-- Resets leave the command where they found it, so every one of them has it. -/
theorem Walk.resets {h : Host σ} {cmd cmd' : UInt8} {paths : List String}
    {vs : List (CallbackRun UInt8)} {result : Int} (hw : Walk paths cmd vs result cmd')
    (hall : ∀ v ∈ vs, Ran h fcdReset v) : ∀ v ∈ vs, ResetOnce h cmd v.toVisit := by
  induction hw with
  | done context => simp
  | pass v hv rest ih =>
    obtain ⟨hafter, hreset⟩ := resetOnce_of_ran (hall v (by simp)) rfl
    have hrest := ih (fun w hmem => hall w (by simp [hmem]))
    rw [hafter] at hrest
    simpa [hreset] using hrest
  | fail paths v hv =>
    obtain ⟨-, hreset⟩ := resetOnce_of_ran (hall v (by simp)) rfl
    simpa using hreset

/-- A broadcast: every entry with a path is reset once, in the order of the list,
and then the code sleeps. -/
def Broadcasts (h : Host σ) (s : σ) (cmd : UInt8) (p : Hid Unit) : Prop :=
  ∃ devs vs sleeps t, devs = (enumerating h fcdUsbVid fcdUsbPid s).1 ∧
    Program.Runs h p s () t
      (⟨.hidEnumerate fcdUsbVid fcdUsbPid, devs⟩ :: browsed devs devs.paths vs ++
        [⟨.hidFreeEnumeration devs, ()⟩] ++ sleeps) ∧
    vs.map (fun v : CallbackRun UInt8 => v.path) = devs.paths.reduceOption ∧
    (∀ v ∈ vs, ResetOnce h cmd v.toVisit) ∧ ∀ e ∈ sleeps, Offline e

theorem reset_broadcasts (h : Host σ) (s : σ) (cmd : UInt8) (delayMs : UInt32) :
    Broadcasts h s cmd (do
      let _ ← fcdForEach fcdReset cmd
      msSleep delayMs) := by
  have hfn : ∀ path context s, ∃ r t es, Program.Runs h (fcdReset path context) s r t es := by
    intro path context s
    obtain ⟨x, t, hrun⟩ := fcdReset_runs h path context s
    exact ⟨_, t, _, hrun⟩
  obtain ⟨devs, vs, result, context', t, hdevs, hrun, hwalk, hall⟩ := fcdForEach_walk hfn cmd s
  obtain ⟨u, v, sleeps, hsleep, -, hoff⟩ := msSleep_settles h delayMs t
  have hresets := hwalk.resets hall
  have hzero := hwalk.result_of_succeeded (fun v hv => (hresets v hv).1)
  exact ⟨devs, vs, sleeps, v, hdevs, hrun.bind hsleep, hwalk.result_eq_zero hzero, hresets, hoff⟩

/-- `fcd_for_each` calls whom it should with the context that each call left to
the next; the two resets, which never fail, therefore reach every dongle. -/
theorem fcdForEach_reaches (h : Host σ) (s : σ) (fn : String → γ → Hid (Int × γ))
    (hfn : ∀ path context s, ∃ r t es, Program.Runs h (fn path context) s r t es) (context : γ) :
    (∃ (devs : DeviceList) (vs : List (CallbackRun γ)) (result : Int) (context' : γ) (t : σ),
      devs = (enumerating h fcdUsbVid fcdUsbPid s).1 ∧
      Program.Runs h (fcdForEach fn context) s (result, context') t
        (⟨.hidEnumerate fcdUsbVid fcdUsbPid, devs⟩ :: browsed devs devs.paths vs ++
          [⟨.hidFreeEnumeration devs, ()⟩]) ∧
      Walk devs.paths.reduceOption context vs result context' ∧ ∀ v ∈ vs, Ran h fn v) ∧
    ∀ delayMs, Broadcasts h s fcdCmdResetBootloader (fcdResetBootloader delayMs) ∧
      Broadcasts h s fcdCmdResetApplication (fcdResetApplication delayMs) :=
  ⟨fcdForEach_walk hfn context s, fun delayMs =>
    ⟨reset_broadcasts h s fcdCmdResetBootloader delayMs,
      reset_broadcasts h s fcdCmdResetApplication delayMs⟩⟩

/-- A host with these entries in every list. -/
def listing (paths : List (Option String)) (h : Host σ) : Host σ := fun c s =>
  match c with
  | .hidEnumerate .. => ((⟨0, paths⟩ : DeviceList), s)
  | c => h c s

/-- A callback that notes its paths and fails on the second. -/
theorem fcdForEach_reaches_second :
    let h := listing [none, some "a", none, some "b", some "c"] (Link.host (Boot.serve id))
    let fn : String → List String → Hid (Int × List String) :=
      fun path seen => pure (if path = "b" then 7 else 0, seen ++ [path])
    ∃ (vs : List (CallbackRun (List String))) (result : Int) (seen : List String),
      Walk ["a", "b", "c"] [] vs result seen ∧ ∀ v ∈ vs, Ran h fn v := by
  intro h fn
  obtain ⟨⟨devs, vs, result, seen, t, hdevs, -, hwalk, hall⟩, -⟩ := fcdForEach_reaches h
    ⟨oneBlock, [], []⟩ fn (fun path seen s => ⟨_, s, [], .done h _ s⟩) []
  have hpaths : devs.paths.reduceOption = ["a", "b", "c"] := by
    rw [hdevs]
    rfl
  rw [hpaths] at hwalk
  exact ⟨vs, result, seen, hwalk, hall⟩

end Libfcd.Proofs
