import Libfcd.Devices.Link

namespace Libfcd.Devices
open Interaction Memory Model Proofs

variable {σ D : Type}

/-- Dongles by their paths, and the path that was opened last. -/
structure Fleet (D : Type) where
  dongle : String → D
  path : String

/-- A host with a dongle behind every path. A report goes to the dongle that was
opened last, which serves it or not; no other dongle moves. An exchange that
succeeds carries the response of its own dongle. -/
structure Populated (serve : Serve D) (h : Host σ) (view : σ → Fleet D) : Prop where
  still : ∀ c s, (∀ dev report, c ≠ .hidWrite dev report) →
    (view (h c s).2).dongle = (view s).dongle
  opens : ∀ path s, (view (opening h path s).2).path = path ∨
    ((opening h path s).1 = none ∧ (view (opening h path s).2).path = (view s).path)
  holds : ∀ c s, (∀ path, c ≠ .hidOpenPath path) → (view (h c s).2).path = (view s).path
  acts : ∀ dev report s, (view (writing h dev report s).2).dongle = (view s).dongle ∨
    (view (writing h dev report s).2).dongle = Function.update (view s).dongle (view s).path
      (serve report ((view s).dongle (view s).path)).2
  honest : ∀ q s bytes, (converse h q s).1.outcome q = .ok bytes →
    (view (converse h q s).2).dongle q.path = (serve q.report ((view s).dongle q.path)).2 ∧
      ∃ data, (serve q.report ((view s).dongle q.path)).1 = some data ∧
        bytes = data.takeD (q.want - 2) 0

/-- A host on which no other path than this one can be opened. -/
def only (path : String) (h : Host σ) : Host σ := fun c s =>
  match c with
  | .hidOpenPath p => if p = path then h (.hidOpenPath p) s else ((none : Option Handle), s)
  | c => h c s

/-- A call that opens nothing but this path. -/
def OpensOnly (path : String) (c : Call) : Prop := ∀ p, c = .hidOpenPath p → p = path

theorem only_eq {path : String} (h : Host σ) (c : Call) (s : σ) (hc : OpensOnly path c) :
    only path h c s = h c s := by
  cases c with
  | hidOpenPath p => exact if_pos (hc p rfl)
  | _ => rfl

namespace Populated

variable {serve : Serve D} {h : Host σ} {view : σ → Fleet D}

/-- Seen through one path there is one dongle. -/
theorem attached (a : Populated serve h view) (path : String) :
    Attached serve (only path h) (fun s => (view s).dongle path) where
  still c s hc := by
    cases c with
    | hidOpenPath p =>
      simp only [only]
      split
      · exact congrFun (a.still _ s (by simp)) path
      · rfl
    | hidWrite dev report => exact absurd rfl (hc dev report)
    | _ => exact congrFun (a.still _ s (by simp)) path
  acts dev report s := by
    change (view (writing h dev report s).2).dongle path = _ ∨
      (view (writing h dev report s).2).dongle path = _
    rcases a.acts dev report s with hv | hv
    · exact .inl (congrFun hv path)
    · rw [hv]
      by_cases hp : path = (view s).path
      · subst hp
        exact .inr (Function.update_self ..)
      · exact .inl (Function.update_of_ne hp ..)
  honest q s bytes ho := by
    by_cases hq : q.path = path
    · have hopen : ∀ s, opening (only path h) q.path s = opening h q.path s :=
        fun s => if_pos hq
      have hsame : converse (only path h) q s = converse h q s := by
        unfold converse
        rw [hopen]
        rfl
      rw [hsame] at ho ⊢
      rw [← hq]
      exact a.honest q s bytes ho
    · have hnone : opening (only path h) q.path s = (none, s) := if_neg hq
      simp only [converse, hnone, Exchange.outcome] at ho
      cases ho

/-- What no report of a run changes of a dongle is as before for all of them. -/
theorem keeps (a : Populated serve h view) {β : Type} (f : D → β) {α : Type} {p : Hid α}
    {s t : σ} {x : α} {es : List Happening} (hp : Program.Runs h p s x t es)
    (hes : ∀ report ∈ reports es, ∀ d, f (serve report d).2 = f d) (path : String) :
    f ((view t).dongle path) = f ((view s).dongle path) := by
  obtain ⟨hrun, rfl⟩ := hp
  induction p generalizing s with
  | done y =>
    obtain ⟨-, rfl⟩ := Prod.mk.inj (Option.some.inj hrun)
    rfl
  | call i next ih =>
    rw [Program.events_call, ← List.singleton_append, reports_append] at hes
    obtain ⟨hfirst, hrest⟩ := List.forall_mem_append.mp hes
    refine (ih _ hrun hrest).trans ?_
    by_cases hi : ∀ dev report, i ≠ .hidWrite dev report
    · rw [a.still i s hi]
    · obtain ⟨dev, report, rfl⟩ : ∃ dev report, i = .hidWrite dev report := by
        simpa using hi
      have hreport := hfirst report (by simp [reports])
      change f ((view (writing h dev report s).2).dongle path) = _
      rcases a.acts dev report s with hv | hv
      · rw [hv]
      · rw [hv]
        by_cases hpath : path = (view s).path
        · subst hpath
          rw [Function.update_self, hreport]
        · rw [Function.update_of_ne hpath]
  | wrong => cases hrun

/-- No dongle moves when nothing is sent. -/
theorem quiet (a : Populated serve h view) {α : Type} {p : Hid α} {s t : σ} {x : α}
    {es : List Happening} (hp : Program.Runs h p s x t es) (hes : reports es = []) :
    (view t).dongle = (view s).dongle :=
  funext (a.keeps id hp (by simp [hes]))

/-- With another dongle open, and as long as this one is not opened, it does not
move. -/
theorem aside (a : Populated serve h view) {path : String} {α : Type} {p : Hid α}
    {s t : σ} {x : α} {es : List Happening} (hp : Program.Runs h p s x t es)
    (hs : (view s).path ≠ path) (hes : ∀ e ∈ es, e.1 ≠ .hidOpenPath path) :
    (view t).dongle path = (view s).dongle path := by
  obtain ⟨hrun, rfl⟩ := hp
  induction p generalizing s with
  | done y =>
    obtain ⟨-, rfl⟩ := Prod.mk.inj (Option.some.inj hrun)
    rfl
  | call i next ih =>
    rw [Program.events_call] at hes
    obtain ⟨hi, hrest⟩ := List.forall_mem_cons.mp hes
    have hstep : (view (h i s).2).dongle path = (view s).dongle path := by
      by_cases hwrite : ∀ dev report, i ≠ .hidWrite dev report
      · rw [a.still i s hwrite]
      · obtain ⟨dev, report, rfl⟩ : ∃ dev report, i = .hidWrite dev report := by
          simpa using hwrite
        change (view (writing h dev report s).2).dongle path = _
        rcases a.acts dev report s with hv | hv
        · rw [hv]
        · rw [hv, Function.update_of_ne (Ne.symm hs)]
    have hheld : (view (h i s).2).path ≠ path := by
      cases i with
      | hidOpenPath p =>
        change (view (opening h p s).2).path ≠ path
        rcases a.opens p s with hp | ⟨-, hp⟩
        · rw [hp]
          rintro rfl
          exact hi rfl
        · rw [hp]
          exact hs
      | _ =>
        rw [a.holds _ s (by simp)]
        exact hs
    exact (ih _ hheld hrun hrest).trans hstep
  | wrong => cases hrun

end Populated

/-- A concrete hub: each path has a link of its own with its own faults, the
list names some of them, and there is one file. -/
structure Hub (D : Type) where
  link : String → Link D
  path : String
  listed : List (Option String)
  file : Bytes

namespace Hub

def fleet (r : Hub D) : Fleet D := ⟨fun path => (r.link path).device, r.path⟩

/-- The hub after its link at the path is now `l`. -/
def put (r : Hub D) (path : String) (l : Link D) : Hub D :=
  { r with link := Function.update r.link path l }

def host (serve : Serve D) : Host (Hub D) := fun c r =>
  match c with
  | .hidOpenPath path =>
    let (dev, l) := opening (Link.host serve) path (r.link path)
    (dev, { r.put path l with path := if dev.isSome then path else r.path })
  | .hidWrite dev report =>
    let (count, l) := writing (Link.host serve) dev report (r.link r.path)
    (count, r.put r.path l)
  | .hidRead dev length =>
    let (received, l) := reading (Link.host serve) dev length (r.link r.path)
    (received, r.put r.path l)
  | .malloc _ | .strdup .. => ((some 0 : Option Nat), r)
  | .hidEnumerate .. => ((⟨0, r.listed⟩ : DeviceList), r)
  | .fopen _ => ((some 0 : Option Nat), r)
  | .fseek .. => ((0 : Int), r)
  | .ftell _ => ((r.file.length : Int), r)
  | .fread .. => (r.file, r)
  | .free _ | .usleep _ | .hidClose _ | .deviceInfo _ | .hidFreeEnumeration _
  | .print .. | .perror _ | .fclose _ | .mark _ => ((), r)

variable {serve : Serve D}

@[simp] theorem fleet_put (r : Hub D) (path : String) (l : Link D) :
    (r.put path l).fleet.dongle = Function.update r.fleet.dongle path l.device := by
  funext p
  by_cases hp : p = path
  · subst hp
    simp [fleet, put]
  · simp [fleet, put, hp]

theorem fleet_put_same {r : Hub D} {path : String} {l : Link D}
    (hl : l.device = (r.link path).device) : (r.put path l).fleet.dongle = r.fleet.dongle := by
  rw [fleet_put, hl]
  exact Function.update_eq_self ..

theorem opening_hub (path : String) (r : Hub D) :
    opening (host serve) path r =
      ((opening (Link.host serve) path (r.link path)).1,
        { r.put path (opening (Link.host serve) path (r.link path)).2 with
          path := if (opening (Link.host serve) path (r.link path)).1.isSome then path
            else r.path }) := rfl

theorem writing_hub (dev : Handle) (report : Bytes) (r : Hub D) :
    writing (host serve) dev report r =
      ((writing (Link.host serve) dev report (r.link r.path)).1,
        r.put r.path (writing (Link.host serve) dev report (r.link r.path)).2) := rfl

theorem reading_hub (dev : Handle) (length : Nat) (r : Hub D) :
    reading (host serve) dev length r =
      ((reading (Link.host serve) dev length (r.link r.path)).1,
        r.put r.path (reading (Link.host serve) dev length (r.link r.path)).2) := rfl

variable (serve) in
/-- An exchange is one with the link at its path. -/
theorem converse_hub (q : Request) (r : Hub D) :
    (converse (host serve) q r).1 = (converse (Link.host serve) q (r.link q.path)).1 ∧
      (converse (host serve) q r).2.link q.path =
        (converse (Link.host serve) q (r.link q.path)).2 := by
  have hclose : ∀ dev l, closing (Link.host serve) dev l = l := fun _ _ => rfl
  have hclose' : ∀ dev r, closing (host serve) dev r = r := fun _ _ => rfl
  unfold converse
  rw [opening_hub]
  rcases opening (Link.host serve) q.path (r.link q.path) with ⟨_ | dev, l⟩
  · simp [put]
  · simp only [Option.isSome_some, if_true, writing_hub, put, Function.update_self]
    rcases writing (Link.host serve) dev q.report l with ⟨count, l'⟩
    simp only [reading_hub, put, Function.update_self, hclose, hclose']
    split
    · simp
    · simp

theorem populated (serve : Serve D) : Populated serve (host serve) fleet where
  still c r hc := by
    cases c with
    | hidWrite dev report => exact absurd rfl (hc dev report)
    | hidOpenPath path => exact fleet_put_same ((Link.attached serve).still _ _ hc)
    | hidRead dev length => exact fleet_put_same ((Link.attached serve).still _ _ hc)
    | _ => rfl
  opens path r := by
    rw [opening_hub]
    dsimp only
    split
    · exact .inl rfl
    · rename_i hnone
      exact .inr ⟨Option.not_isSome_iff_eq_none.mp hnone, rfl⟩
  holds c r hc := by
    cases c with
    | hidOpenPath path => exact absurd rfl (hc path)
    | _ => rfl
  acts dev report r := by
    rw [writing_hub, fleet_put]
    rcases (Link.attached serve).acts dev report (r.link r.path) with hl | hl
    · rw [hl]
      exact .inl (Function.update_eq_self ..)
    · rw [hl]
      exact .inr rfl
  honest q r bytes ho := by
    obtain ⟨hx, hl⟩ := converse_hub serve q r
    rw [hx] at ho
    simp only [fleet, hl]
    exact (Link.attached serve).honest q _ bytes ho

end Hub

end Libfcd.Devices
