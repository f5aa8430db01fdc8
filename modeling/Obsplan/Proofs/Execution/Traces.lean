import Obsplan.Proofs.Execution.Refinement
import Obsplan.Proofs.Twin.Growth

/-!
# What a run records

An actuator that is run leaves a trace in the twin: its observation, the activity that made it
unless it was taken over, and the edges of both. A part of a run that succeeds leaves one trace for
each actuator, in the order of computation, and nothing else.
-/

namespace Obsplan

variable {α : Type} [Coordinate α] {β γ : Type}

/-- Whether an activity is begun for an actuator. -/
def Actuator.begins (a : Actuator α) : Bool := decide (a.job.kind ≠ .reference)

namespace Run

open Edit

variable {s s' : RunState α} {setting : RunSetting α} {j : Job α} {children : List (Actuator α)}
  {o : Observation α} {activity : UInt64}

/-! ## Parts that succeed -/

theorem update_ok {edit : Edit (Twin α) ExecutionError PUnit}
    (h : on (update edit) s = (.ok (), s')) :
    edit.made s.twin = .ok s'.twin ∧ s'.results = s.results := by
  rw [update, on_within] at h
  obtain ⟨hedit, hs'⟩ := Prod.mk.inj h
  subst hs'
  exact ⟨made_eq_ok hedit, rfl⟩

theorem record_ok {change : Twin α → Twin α} (h : on (record change) s = (.ok (), s')) :
    s'.twin = change s.twin ∧ s'.results = s.results := by
  cases h
  exact ⟨rfl, rfl⟩

theorem begin_ok {kind : ActivityKind} {description agent : String} {n : UInt64}
    (h : on (begin kind description agent) s = (.ok n, s')) :
    n = s.twin.nextActivity ∧ s'.twin = (s.twin.begin kind description agent).2 ∧
      s'.results = s.results := by
  cases h
  exact ⟨rfl, rfl, rfl⟩

theorem look_ok {stopped : Bool} (h : on (look setting) s = (.ok stopped, s')) :
    s'.twin = s.twin ∧ s'.results = s.results := by
  cases h
  exact ⟨rfl, rfl⟩

theorem link_ok {source target : NodeKey} {r : Relationship}
    (h : on (link source r target) s = (.ok (), s')) :
    s'.twin = s.twin.connect ⟨source, r, target⟩ ∧ s'.results = s.results := by
  obtain ⟨hlink, hresults⟩ := update_ok h
  obtain ⟨-, -, htwin⟩ := Twin.link_eq hlink
  exact ⟨htwin, hresults⟩

theorem finish_ok {activity : UInt64} {status : Status}
    (h : on (finish activity status) s = (.ok (), s')) :
    s.twin.finish activity status = .ok s'.twin ∧ s'.results = s.results :=
  update_ok h

theorem forM_link_ok (source target : Actuator α → NodeKey) (r : Relationship)
    {as : List (Actuator α)}
    (h : on (as.forM fun a => link (source a) r (target a)) s = (.ok (), s')) :
    s'.twin = (as.map fun a => ⟨source a, r, target a⟩).foldl Twin.connect s.twin ∧
      s'.results = s.results := by
  induction as generalizing s with
  | nil =>
    cases h
    exact ⟨rfl, rfl⟩
  | cons a as ih =>
    obtain ⟨_, s₁, hlink, hrest⟩ := exists_of_on_bind h
    obtain ⟨htwin, hresults⟩ := link_ok hlink
    obtain ⟨htwin', hresults'⟩ := ih hrest
    exact ⟨by rw [htwin', htwin]; rfl, hresults'.trans hresults⟩

theorem abandon_ne_ok {e : ExecutionError} {b : β} :
    on (abandon activity e : Run α β) s ≠ (.ok b, s') := by
  intro h
  obtain ⟨_, s₁, -, hthrow⟩ := exists_of_on_bind h
  cases hthrow

/-- Calls change neither the twin nor what was observed, unless one fails. -/
theorem compute_ok {deps : List (String × Option Value)} {calls : List Call}
    {value v : Option Value}
    (h : on (compute setting j deps activity calls value) s = (.ok v, s')) :
    s'.twin = s.twin ∧ s'.results = s.results := by
  induction calls generalizing value s with
  | nil =>
    cases h
    exact ⟨rfl, rfl⟩
  | cons call calls ih =>
    rw [compute] at h
    split at h
    · exact absurd h abandon_ne_ok
    · split at h
      · exact ih h
      · exact absurd h abandon_ne_ok
      · obtain ⟨_, s₁, hmodify, hrest⟩ := exists_of_on_bind h
        cases hmodify
        have hkept := ih hrest
        exact hkept
      · cases h

/-! ## Traces -/

/-- What a run records of an actuator. -/
structure Trace (α : Type) [Coordinate α] where
  actuator : Actuator α
  observation : Observation α
  /-- The activity that made the observation, unless it was taken over. -/
  activity : Option Activity

namespace Trace

variable (setting : RunSetting α) (x : Trace α)

def nodes : List (TwinNode α) := (x.activity.map .activity).toList ++ [.observation x.observation]

/-- Who answers for an activity, what it made and what it read. -/
def made (a : Activity) : List Edge :=
  [⟨.activity a.id, .associatedWith, .agent setting.agent⟩,
    ⟨.activity a.id, .generated, .observation x.actuator.job.id⟩] ++
    x.actuator.children.map fun c => ⟨.activity a.id, .used, .observation c.job.id⟩

/-- What an observation depends on, and that it is what the run was for. -/
def accepted : List Edge :=
  (x.actuator.children.map fun c =>
    ⟨.observation c.job.id, .childOf, .observation x.actuator.job.id⟩) ++
    if setting.target = some x.actuator.job.id then
      [⟨.activity setting.activity, .generated, .observation x.actuator.job.id⟩]
    else []

/-- Whether an activity was begun. -/
def begun : Bool := x.activity.isSome

def edges : List Edge := (x.activity.map (x.made setting)).getD [] ++ x.accepted setting

/-- The trace of an actuator that was run to its end. -/
structure Whole (x : Trace α) : Prop where
  id : x.observation.id = x.actuator.job.id
  reference : x.activity = none ↔ x.actuator.job.kind = .reference
  activity : ∀ a ∈ x.activity, a.kind = .contextualization ∧ a.status = .succeeded

theorem Whole.begun {x : Trace α} (h : x.Whole) : x.begun = x.actuator.begins := by
  have hreference := h.reference
  cases hx : x.activity <;> simp_all [Trace.begun, Actuator.begins]

end Trace

/-! ## Single actuators -/

theorem observe_traces (h : on (observe setting j children) s = (.ok o, s'))
    (hagent : s.twin.contains (.agent setting.agent) = true)
    (hactivity : s.twin.contains (.activity s.twin.nextActivity) = false)
    (hnew : s.twin.contains (.observation j.id) = false) :
    ∃ a : Activity, a.id = s.twin.nextActivity ∧ a.kind = .contextualization ∧
      a.status = .succeeded ∧ o.id = j.id ∧ s'.results = s.results ∧
      s'.twin.nextActivity = s.twin.nextActivity + 1 ∧
      s.twin.Grows [.activity a, .observation o]
        (Trace.made setting ⟨.mk j children, o, some a⟩ a) s'.twin := by
  unfold observe at h
  obtain ⟨n, s₁, hbegin, h⟩ := exists_of_on_bind h
  obtain ⟨rfl, htwin₁, hresults₁⟩ := begin_ok hbegin
  obtain ⟨_, _, hget, h⟩ := exists_of_on_bind h
  cases hget
  obtain ⟨value, s₂, hcompute, h⟩ := exists_of_on_bind h
  obtain ⟨hcomputed, hresults₂⟩ := compute_ok hcompute
  obtain ⟨stopped, s₃, hlook, h⟩ := exists_of_on_bind h
  obtain ⟨hlooked, hresults₃⟩ := look_ok hlook
  have htwin₂ := hlooked.trans hcomputed
  dsimp only at h
  split at h
  · obtain ⟨_, _, -, hthrow⟩ := exists_of_on_bind h
    cases hthrow
  · obtain ⟨_, s₄, hrecord, h⟩ := exists_of_on_bind h
    obtain ⟨_, s₅, hgenerated, h⟩ := exists_of_on_bind h
    obtain ⟨_, s₆, hused, h⟩ := exists_of_on_bind h
    obtain ⟨_, s₇, hfinish, h⟩ := exists_of_on_bind h
    obtain ⟨htwin₄, hresults₄⟩ := record_ok hrecord
    obtain ⟨htwin₅, hresults₅⟩ := link_ok hgenerated
    obtain ⟨htwin₆, hresults₆⟩ := forM_link_ok (fun _ => .activity s.twin.nextActivity)
      (fun c => .observation c.job.id) .used hused
    obtain ⟨hfinished, hresults₇⟩ := finish_ok hfinish
    cases h
    have hbegun := Twin.Grows.begin s.twin .contextualization
      (j.kind.name ++ " " ++ j.targetName) setting.agent hactivity
    rw [Twin.newAgent_of_contains hagent, ← htwin₁, ← htwin₂] at hbegun
    have hrecorded := hbegun.put (n := .observation ⟨j.id, j.observable, j.scale, j.coverage, value,
      decide (j.kind = JobKind.observe) && !j.coverage.isEmpty⟩) hnew
    rw [← Twin.record, ← htwin₄] at hrecorded
    have hlinked : s.twin.Grows _ _ s₆.twin := htwin₆ ▸ (htwin₅ ▸ hrecorded.connect _).connectAll _
    have hended := Twin.Grows.finish (a := ⟨s.twin.nextActivity, .contextualization,
      j.kind.name ++ " " ++ j.targetName, .running⟩)
      (by simpa [Twin.putIn, TwinNode.key] using hlinked) hactivity hfinished
    refine ⟨_, rfl, rfl, rfl, rfl, ?_, ?_, hended⟩
    · rw [hresults₇, hresults₆, hresults₅, hresults₄, hresults₃, hresults₂, hresults₁]
    · rw [Twin.nextActivity_finish hfinished, htwin₆, htwin₅, htwin₄, htwin₂, htwin₁]
      simp [Twin.record]

theorem takeOver_ok (h : on (takeOver j) s = (.ok o, s')) :
    o.id = j.id ∧ s'.twin = s.twin.record o ∧ s'.results = s.results := by
  unfold takeOver at h
  split at h
  · cases h
  · obtain ⟨_, _, hget, h⟩ := exists_of_on_bind h
    cases hget
    split at h
    · cases h
    · obtain ⟨_, s₁, hrecord, h⟩ := exists_of_on_bind h
      obtain ⟨htwin, hresults⟩ := record_ok hrecord
      cases h
      exact ⟨rfl, htwin, hresults⟩

theorem accept_ok {x : Trace α} (hx : x.actuator = .mk j children)
    (h : on (accept setting j children o) s = (.ok (), s')) :
    s'.twin = (x.accepted setting).foldl Twin.connect s.twin ∧
      s'.results = s.results.insert j.id o := by
  unfold accept at h
  obtain ⟨_, s₁, hlinks, h⟩ := exists_of_on_bind h
  obtain ⟨htwin₁, hresults₁⟩ := forM_link_ok (fun c => .observation c.job.id)
    (fun _ => .observation j.id) .childOf hlinks
  rw [Trace.accepted, hx, Actuator.job, Actuator.children, List.foldl_append, ← htwin₁, ← hresults₁]
  dsimp only at h
  split at h
  · rename_i htarget
    obtain ⟨_, s₂, hlink, h⟩ := exists_of_on_bind h
    obtain ⟨htwin₂, hresults₂⟩ := link_ok hlink
    cases h
    exact ⟨by rw [if_pos htarget]; exact htwin₂, by rw [← hresults₂]⟩
  · rename_i htarget
    cases h
    exact ⟨by rw [if_neg htarget]; rfl, rfl⟩

/-- A part of a run leaves some traces and nothing else. It takes a number for each activity. -/
structure Leaves (setting : RunSetting α) (s : RunState α) (xs : List (Trace α))
    (s' : RunState α) : Prop where
  whole : ∀ x ∈ xs, x.Whole
  grows : s.twin.Grows (xs.flatMap Trace.nodes) (xs.flatMap (Trace.edges setting)) s'.twin
  results : s'.results =
    xs.foldl (fun m x => m.insert x.actuator.job.id x.observation) s.results
  free : ∀ count, xs.countP Trace.begun + count ≤ UInt64.size →
    s.twin.Free (xs.countP Trace.begun + count) → s'.twin.Free count

theorem Leaves.nil (setting : RunSetting α) (s : RunState α) : Leaves setting s [] s :=
  ⟨by simp, .refl _, rfl, fun count _ hfree => by simpa using hfree⟩

theorem Leaves.cons {x : Trace α} {xs : List (Trace α)} {s₁ : RunState α}
    (h : Leaves setting s [x] s₁) (h' : Leaves setting s₁ xs s') :
    Leaves setting s (x :: xs) s' where
  whole := List.forall_mem_cons.mpr ⟨h.whole x List.mem_cons_self, h'.whole⟩
  grows := by simpa using h.grows.trans h'.grows
  results := by rw [h'.results, h.results]; rfl
  free count hcount hfree := by
    rw [show x :: xs = [x] ++ xs from rfl, List.countP_append, Nat.add_assoc] at hcount hfree
    exact h'.free count (by omega) (h.free _ hcount hfree)

/-- To look whether a run was asked to stop leaves nothing. -/
theorem Leaves.of_looked {asked : Nat → Bool} {xs : List (Trace α)}
    (h : Leaves setting (s.looked asked) xs s') : Leaves setting s xs s' :=
  ⟨h.whole, h.grows, h.results, h.free⟩

/-- The steps of an actuator leave one trace. -/
theorem perform_leaves {a : Actuator α} (h : on (perform setting a.job a.children) s = (.ok (), s'))
    (hagent : s.twin.contains (.agent setting.agent) = true)
    (hactivity : a.begins = true → s.twin.contains (.activity s.twin.nextActivity) = false)
    (hnew : s.twin.contains (.observation a.job.id) = false) :
    ∃ x : Trace α, x.actuator = a ∧ Leaves setting s [x] s' := by
  obtain ⟨j, children⟩ := a
  rw [perform_eq] at h
  obtain ⟨stopped, s₀, hlook, h⟩ := exists_of_on_bind h
  cases hlook
  split at h
  · cases h
  · suffices hlooked : ∃ x : Trace α, x.actuator = .mk j children ∧
        Leaves setting (s.looked setting.asked) [x] s' by
      obtain ⟨x, hx, hleaves⟩ := hlooked
      exact ⟨x, hx, hleaves.of_looked⟩
    rw [← s.twin_looked setting.asked] at hagent hactivity hnew
    generalize s.looked setting.asked = s at hagent hactivity hnew h
    split at h
    · rename_i hkind
      obtain ⟨o, s₁, htakeOver, haccept⟩ := exists_of_on_bind h
      obtain ⟨hid, htwin₁, hresults₁⟩ := takeOver_ok htakeOver
      obtain ⟨htwin, hresults⟩ := accept_ok (x := ⟨.mk j children, o, none⟩) rfl haccept
      have hgrows : s.twin.Grows [.observation o] [] s₁.twin :=
        htwin₁ ▸ (Twin.Grows.refl s.twin).put (by simpa [TwinNode.key, hid] using hnew)
      have hgrows : s.twin.Grows (Trace.nodes ⟨.mk j children, o, none⟩)
          (Trace.edges setting ⟨.mk j children, o, none⟩) s'.twin := htwin ▸ hgrows.connectAll _
      refine ⟨⟨.mk j children, o, none⟩, rfl, ?_, by simpa using hgrows,
        by rw [hresults, hresults₁]; rfl, fun count hcount hfree => ?_⟩
      · simpa using (⟨hid, by simpa using hkind, by simp⟩ : Trace.Whole ⟨.mk j children, o, none⟩)
      · rw [show List.countP Trace.begun [(⟨.mk j children, o, none⟩ : Trace α)] = 0 from rfl,
          Nat.zero_add] at hfree
        refine hfree.kept ?_ fun id hin => ?_
        · rw [htwin, Twin.nextActivity_foldl_connect, htwin₁]
          rfl
        · simpa [hgrows.contains, Trace.nodes, TwinNode.key] using hin
    · rename_i hkind
      obtain ⟨o, s₁, hobserve, haccept⟩ := exists_of_on_bind h
      obtain ⟨a, ha, hakind, hstatus, hid, hresults₁, hnext, hgrows⟩ :=
        observe_traces hobserve hagent (hactivity (by simpa [Actuator.begins] using hkind)) hnew
      obtain ⟨htwin, hresults⟩ := accept_ok (x := ⟨.mk j children, o, some a⟩) rfl haccept
      have hgrows : s.twin.Grows (Trace.nodes ⟨.mk j children, o, some a⟩)
          (Trace.edges setting ⟨.mk j children, o, some a⟩) s'.twin := htwin ▸ hgrows.connectAll _
      refine ⟨⟨.mk j children, o, some a⟩, rfl, ?_, by simpa using hgrows,
        by rw [hresults, hresults₁]; rfl, fun count hcount hfree => ?_⟩
      · simpa using (⟨hid, by simpa using hkind, by simp [hakind, hstatus]⟩ :
          Trace.Whole ⟨.mk j children, o, some a⟩)
      · rw [show List.countP Trace.begun [(⟨.mk j children, o, some a⟩ : Trace α)] = 1 from rfl,
          Nat.add_comm] at hcount hfree
        refine hfree.taken (Nat.lt_of_succ_le hcount) ?_ fun id hin => ?_
        · rw [htwin, Twin.nextActivity_foldl_connect, hnext]
        · simpa [hgrows.contains, Trace.nodes, TwinNode.key, ha] using hin

/-! ## All actuators -/

mutual

theorem actuator_eq (setting : RunSetting α) : (a : Actuator α) →
    actuator setting a = a.course.forM fun b => perform setting b.job b.children
  | .mk j children => by
    rw [actuator, Actuator.course, actuators_eq setting children]
    simp [List.forM_eq_forM, Actuator.job, Actuator.children]

theorem actuators_eq (setting : RunSetting α) : (as : List (Actuator α)) →
    actuators setting as =
      (Actuator.courseAll as).forM fun b => perform setting b.job b.children
  | [] => rfl
  | a :: as => by
    rw [actuators, Actuator.courseAll, actuator_eq setting a, actuators_eq setting as]
    simp [List.forM_eq_forM]

end

theorem Trace.mem_keys {x : Trace α} {k : NodeKey} :
    k ∈ x.nodes.map TwinNode.key ↔
      (∃ a ∈ x.activity, k = .activity a.id) ∨ k = .observation x.observation.id := by
  cases hx : x.activity <;> simp [Trace.nodes, TwinNode.key, hx]

/-- Actuators that are run in turn leave a trace each. -/
theorem forM_leaves {as : List (Actuator α)}
    (h : on (as.forM fun a => perform setting a.job a.children) s = (.ok (), s'))
    (hids : (as.map fun a => a.job.id).Nodup)
    (hnew : ∀ a ∈ as, s.twin.contains (.observation a.job.id) = false)
    (hagent : s.twin.contains (.agent setting.agent) = true)
    (hfree : s.twin.Free (as.countP Actuator.begins))
    (hcount : as.countP Actuator.begins ≤ UInt64.size) :
    ∃ xs : List (Trace α), xs.map Trace.actuator = as ∧ Leaves setting s xs s' := by
  induction as generalizing s with
  | nil =>
    cases h
    exact ⟨[], rfl, .nil setting _⟩
  | cons a as ih =>
    obtain ⟨_, s₁, hperform, hrest⟩ := exists_of_on_bind h
    obtain ⟨hnew, hlater⟩ := List.forall_mem_cons.mp hnew
    rw [List.map_cons, List.nodup_cons] at hids
    rw [show a :: as = [a] ++ as from rfl, List.countP_append] at hfree hcount
    have hfirst : a.begins = true → s.twin.Free (0 + 1) := fun hbegins =>
      hfree.mono (by simp [hbegins])
    obtain ⟨x, rfl, hleaves⟩ := perform_leaves hperform hagent
      (fun hbegins => (hfirst hbegins).next) hnew
    have hgrows := hleaves.grows
    rw [List.flatMap_singleton] at hgrows
    have hid := hleaves.whole x List.mem_cons_self
    have hlater : ∀ b ∈ as, s₁.twin.contains (.observation b.job.id) = false := by
      intro b hb
      rw [hgrows.notContains, Trace.mem_keys, hid.id]
      refine ⟨hlater b hb, ?_⟩
      rintro (⟨_, _, hkey⟩ | hkey)
      · cases hkey
      · exact hids.1 (List.mem_map.mpr ⟨b, hb, NodeKey.observation.inj hkey⟩)
    rw [List.countP_singleton, ← hid.begun, ← List.countP_singleton] at hfree hcount
    obtain ⟨xs, hxs, hrest⟩ := ih hrest hids.2 hlater (hgrows.contains.mpr (.inl hagent))
      (hleaves.free _ hcount hfree) (by omega)
    exact ⟨x :: xs, by rw [List.map_cons, hxs], hleaves.cons hrest⟩

/-! ## Whole runs -/

theorem all_ok {roots : List (Actuator α)} (h : on (all setting roots) s = (.ok (), s')) :
    ∃ s₁, on (actuators setting roots) s = (.ok (), s₁) ∧ s' = s₁.looked setting.asked := by
  unfold all at h
  rw [forM_walk] at h
  obtain ⟨_, s₁, hrun, h⟩ := exists_of_on_bind h
  obtain ⟨_, _, hlook, h⟩ := exists_of_on_bind h
  cases hlook
  split at h
  · cases h
  · cases h
    exact ⟨s₁, hrun, rfl⟩

theorem giveUp_ne_ok {e : ExecutionError} : on (giveUp activity e) s ≠ (.ok o, s') := by
  intro h
  unfold giveUp at h
  split at h
  · cases h
  · obtain ⟨_, _, -, hthrow⟩ := exists_of_on_bind h
    cases hthrow
  · exact abandon_ne_ok h

theorem conclude_ok {d : Dataflow α} {i : Identifier} (htarget : d.target = some i)
    (h : on (conclude d activity) s = (.ok o, s')) :
    ∃ p, s.results.get? i = some p ∧ o = d.concluded p ∧
      (s.twin.record o).finish activity .succeeded = .ok s'.twin := by
  unfold conclude at h
  rw [htarget, Option.some_or] at h
  dsimp only at h
  obtain ⟨_, _, hget, h⟩ := exists_of_on_bind h
  cases hget
  split at h
  · cases h
  · rename_i p hp
    obtain ⟨_, s₁, hrecord, h⟩ := exists_of_on_bind h
    obtain ⟨_, s₂, hfinish, h⟩ := exists_of_on_bind h
    obtain ⟨htwin, -⟩ := record_ok hrecord
    obtain ⟨hfinish, -⟩ := finish_ok hfinish
    cases h
    exact ⟨p, hp, rfl, htwin ▸ hfinish⟩

/-- The parts of a run that succeeds. -/
theorem dataflow_ok {registry : Registry α} {agent : String} {d : Dataflow α} {ctx : Context α}
    {asked : Nat → Bool} (h : on (dataflow registry agent d ctx asked) s = (.ok o, s')) :
    ∃ (setting : RunSetting α) (s₁ s₂ : RunState α),
      setting.agent = ctx.constraints.provenanceAgent?.getD agent ∧
      setting.activity = s.twin.nextActivity ∧ setting.target = d.target ∧
      s₁.twin = (s.twin.begin .resolution (description d ctx) setting.agent).2 ∧
      s₁.results = .empty ∧ on (actuators setting d.actuators) s₁ = (.ok (), s₂) ∧
      on (conclude d setting.activity) (s₂.looked setting.asked) = (.ok o, s') := by
  unfold dataflow at h
  dsimp only at h
  split at h
  · obtain ⟨_, _, hthrow, -⟩ := exists_of_on_bind h
    cases hthrow
  · obtain ⟨n, s₁, hbegin, h⟩ := exists_of_on_bind h
    obtain ⟨hn, htwin, -⟩ := begin_ok hbegin
    obtain ⟨_, _, hmodify, h⟩ := exists_of_on_bind h
    cases hmodify
    obtain ⟨r, s₂, hexcept, h⟩ := exists_of_on_bind h
    rcases hall : on (all ⟨registry, ctx.constraints.provenanceAgent?.getD agent, n, d.target,
      asked⟩ d.actuators) { s₁ with results := .empty } with ⟨r', s₂'⟩
    cases hexcept.symm.trans (on_observeExcept hall)
    cases r with
    | error e => exact absurd h giveUp_ne_ok
    | ok _ =>
      obtain ⟨s₃, hrun, rfl⟩ := all_ok hall
      exact ⟨_, _, s₃, rfl, hn, rfl, htwin, rfl, hrun, h⟩

end Run

end Obsplan
