import Libfcd.Proofs.Opening
import Mathlib.Data.List.ReduceOption

namespace Libfcd.Proofs
open Interaction Memory Model

variable {σ γ : Type}

/-- One call of a callback: its path, its result and what happened in it. -/
structure Visit where
  path : String
  result : Int
  events : List Happening

/-- The way of `fcd_for_each` through the entries of a list, with the visits it
makes, the result and the events on the way. -/
inductive Tour (devs : DeviceList) :
    List (Option String) → List Visit → Int → List Happening → Prop where
  | done : Tour devs [] [] 0 []
  | skip {paths : List (Option String)} {vs : List Visit} {result : Int} {es : List Happening}
      (rest : Tour devs paths vs result es) :
      Tour devs (none :: paths) vs result
        (⟨.deviceInfo devs, ()⟩ :: ⟨.deviceInfo devs, ()⟩ :: es)
  | pass {paths : List (Option String)} {vs : List Visit} {result : Int} {es : List Happening}
      (v : Visit) (hv : v.result = 0) (rest : Tour devs paths vs result es) :
      Tour devs (some v.path :: paths) (v :: vs) result
        (⟨.deviceInfo devs, ()⟩ :: v.events ++ ⟨.deviceInfo devs, ()⟩ :: es)
  | fail (paths : List (Option String)) (v : Visit) (hv : v.result ≠ 0) :
      Tour devs (some v.path :: paths) [v] v.result (⟨.deviceInfo devs, ()⟩ :: v.events)

namespace Tour

variable {devs : DeviceList} {paths : List (Option String)} {vs : List Visit} {result : Int}
  {es : List Happening}

/-- The visits are to the entries with a path, in order and from the first on. -/
theorem prefix_paths (h : Tour devs paths vs result es) :
    vs.map Visit.path <+: paths.reduceOption := by
  induction h with
  | done => simp
  | skip rest ih => simpa [List.reduceOption_cons_of_none] using ih
  | pass v hv rest ih => simpa [List.reduceOption_cons_of_some] using ih
  | fail paths v hv => simp [List.reduceOption_cons_of_some]

/-- The result is 0 if all entries with a path were visited with success. -/
theorem result_eq_zero (h : Tour devs paths vs result es) (hr : result = 0) :
    vs.map Visit.path = paths.reduceOption ∧ ∀ v ∈ vs, v.result = 0 := by
  induction h with
  | done => simp
  | skip rest ih => simpa [List.reduceOption_cons_of_none] using ih hr
  | pass v hv rest ih =>
    obtain ⟨hpaths, hall⟩ := ih hr
    simpa [List.reduceOption_cons_of_some, hpaths, hv] using hall
  | fail paths v hv => exact absurd hr hv

/-- Otherwise it is that of the last visit, and the ones before went well. -/
theorem result_ne_zero (h : Tour devs paths vs result es) (hr : result ≠ 0) :
    ∃ front v, vs = front ++ [v] ∧ v.result = result ∧ ∀ x ∈ front, x.result = 0 := by
  induction h with
  | done => exact absurd rfl hr
  | skip rest ih => exact ih hr
  | pass v hv rest ih =>
    obtain ⟨front, w, rfl, hw, hfront⟩ := ih hr
    exact ⟨v :: front, w, rfl, hw, by simpa [hv] using hfront⟩
  | fail paths v hv => exact ⟨[], v, rfl, rfl, by simp⟩

end Tour

/-- Visits to the entries of a list with a path, in order and up to the first that
fails. -/
structure Visited (paths : List (Option String)) (vs : List Visit) : Prop where
  order : vs.map Visit.path <+: paths.reduceOption
  last : ∀ front v back, vs = front ++ v :: back → v.result ≠ 0 → back = []
  whole : (∀ v ∈ vs, v.result = 0) → vs.map Visit.path = paths.reduceOption

theorem Tour.visited {devs : DeviceList} {paths : List (Option String)} {vs : List Visit}
    {result : Int} {es : List Happening} (h : Tour devs paths vs result es) :
    Visited paths vs where
  order := h.prefix_paths
  last := by
    induction h with
    | done => simp
    | skip rest ih => exact ih
    | @pass paths vs result es v hv rest ih =>
      intro front u back heq hu
      cases front with
      | nil =>
        obtain ⟨rfl, -⟩ := List.cons.inj heq
        exact absurd hv hu
      | cons w front => exact ih front u back (List.cons.inj heq).2 hu
    | fail paths v hv =>
      intro front u back heq _
      cases front with
      | nil => exact (List.cons.inj heq).2.symm
      | cons w front => simp at heq
  whole hall := by
    by_cases hr : result = 0
    · exact (h.result_eq_zero hr).1
    · obtain ⟨front, v, rfl, hv, -⟩ := h.result_ne_zero hr
      exact absurd (hv ▸ hall v (by simp)) hr

/-- The stretch of a run in which the dongles of a list are visited, from the enumeration
to the freeing of the list. -/
def Toured (es : List Happening) (devs : DeviceList) (vs : List Visit) : Prop :=
  ∃ front back fs result, es = front ++ (⟨.hidEnumerate fcdUsbVid fcdUsbPid, devs⟩ :: fs ++
      [⟨.hidFreeEnumeration devs, ()⟩]) ++ back ∧ Tour devs devs.paths vs result fs

/-- Visits of callbacks that keep their context make a tour. -/
theorem visitEach_tour {h : Host σ} {fn : String → γ → Hid (Int × γ)} {context : γ}
    {P : Visit → Prop}
    (hfn : ∀ path s, ∃ v t, v.path = path ∧ P v ∧
      Program.Runs h (fn path context) s (v.result, context) t v.events)
    (devs : DeviceList) (paths : List (Option String)) (s : σ) :
    ∃ vs result t es, Program.Runs h (visitEach fn devs paths context) s (result, context) t es ∧
      Tour devs paths vs result es ∧ ∀ v ∈ vs, P v := by
  induction paths generalizing s with
  | nil => exact ⟨[], 0, s, [], .done h _ s, .done, by simp⟩
  | cons path rest ih =>
    let info : Happening := ⟨.deviceInfo devs, ()⟩
    let s1 := (h (.deviceInfo devs) s).2
    cases path with
    | none =>
      obtain ⟨vs, result, t, es, hrun, htour, hall⟩ := ih (h (.deviceInfo devs) s1).2
      exact ⟨vs, result, t, info :: info :: es, .call (.call hrun), .skip htour, hall⟩
    | some path =>
      obtain ⟨v, u, rfl, hv, hvisit⟩ := hfn path s1
      by_cases hr : v.result = 0
      · obtain ⟨vs, result, t, es, hrun, htour, hall⟩ := ih (h (.deviceInfo devs) u).2
        refine ⟨v :: vs, result, t, info :: v.events ++ info :: es, ?_, .pass v hr htour,
          by simpa [hv] using hall⟩
        refine .call (hvisit.bind ?_)
        simp only [ne_eq, hr, not_true_eq_false, if_false]
        exact .call hrun
      · refine ⟨[v], v.result, u, info :: v.events, ?_, .fail rest v hr, by simpa using hv⟩
        refine .call (hvisit.bind_done ?_)
        simp only [ne_eq, hr, not_false_eq_true, if_true]
        rfl

theorem fcdForEach_tour {h : Host σ} {fn : String → γ → Hid (Int × γ)} {context : γ}
    {P : Visit → Prop}
    (hfn : ∀ path s, ∃ v t, v.path = path ∧ P v ∧
      Program.Runs h (fn path context) s (v.result, context) t v.events) (s : σ) :
    ∃ devs vs result t es, Program.Runs h (fcdForEach fn context) s (result, context) t
        (⟨.hidEnumerate fcdUsbVid fcdUsbPid, devs⟩ :: es ++ [⟨.hidFreeEnumeration devs, ()⟩]) ∧
      Tour devs devs.paths vs result es ∧ ∀ v ∈ vs, P v := by
  rcases he : enumerating h fcdUsbVid fcdUsbPid s with ⟨devs, s1⟩
  obtain ⟨vs, result, t, es, hrun, htour, hall⟩ := visitEach_tour hfn devs devs.paths s1
  refine ⟨devs, vs, result, (h (.hidFreeEnumeration devs) t).2, es, ?_, htour, hall⟩
  exact runs_enumerate he (hrun.bind (.call (.done h _ _)))

end Libfcd.Proofs
