import Mathlib.Data.List.Nodup
import Obsplan.Proofs.Dataflow.Plans
import Obsplan.Proofs.Execution.Invariants
import Obsplan.Proofs.Execution.References
import Obsplan.Proofs.Execution.Traces

/-!
# The provenance of a run

A run that succeeds adds to the twin what its plan says: an observation for each actuator, made by
an activity that read the observations of its children, and an activity for the whole run, which
made the observation the plan is for. Main statement: that is all it adds, and what was there before
stays, when the numbers that its activities take are not in use.
-/

namespace Obsplan

variable {α : Type} [Coordinate α]

namespace Run

open Edit

/-! ## Traces in a twin -/

namespace Trace

variable {setting : RunSetting α} {x y : Trace α} {xs : List (Trace α)} {o : Observation α}
  {k k' : NodeKey}

/-- The trace with an observation in the place of the one with the same identifier. -/
def replaced (o : Observation α) (x : Trace α) : Trace α :=
  if x.observation.id = o.id then { x with observation := o } else x

@[simp] theorem actuator_replaced : (x.replaced o).actuator = x.actuator := by
  unfold replaced
  split <;> rfl

@[simp] theorem edges_replaced : (x.replaced o).edges setting = x.edges setting := by
  unfold replaced
  split <;> rfl

theorem Whole.replaced (h : x.Whole) (o : Observation α) : (x.replaced o).Whole := by
  unfold Trace.replaced
  split
  · rename_i hid
    exact ⟨hid.symm.trans h.id, h.reference, h.activity⟩
  · exact h

theorem replaced_of_ne (h : x.observation.id ≠ o.id) : x.replaced o = x := if_neg h

/-- Observations are replaced in their places. -/
theorem putIn_flatMap (hids : (xs.map fun x => x.observation.id).Nodup)
    (ho : o.id ∈ xs.map fun x => x.observation.id) :
    Twin.putIn (.observation o) (xs.flatMap nodes) = (xs.map (replaced o)).flatMap nodes := by
  induction xs with
  | nil => cases ho
  | cons x xs ih =>
    rw [List.map_cons, List.nodup_cons] at hids
    rw [List.flatMap_cons, List.map_cons, List.flatMap_cons]
    by_cases hid : x.observation.id = o.id
    · have hothers : xs.map (replaced o) = xs := by
        conv_rhs => rw [← List.map_id xs]
        refine List.map_congr_left fun y hy => replaced_of_ne fun hy' => hids.1 ?_
        exact List.mem_map.mpr ⟨y, hy, hy'.trans hid.symm⟩
      have hbefore : TwinNode.key (.observation o) ∉
          (x.activity.map TwinNode.activity).toList.map (TwinNode.key (α := α)) := by
        cases x.activity <;> simp [TwinNode.key]
      rw [hothers, nodes, List.append_assoc, Twin.putIn_append hbefore, replaced, if_pos hid, nodes,
        List.append_assoc]
      simp [Twin.putIn, TwinNode.key, hid]
    · have hother : TwinNode.key (.observation o) ∉ x.nodes.map TwinNode.key := by
        rw [mem_keys]
        rintro (⟨_, _, hkey⟩ | hkey)
        · cases hkey
        · exact hid (NodeKey.observation.inj hkey).symm
      rw [Twin.putIn_append hother, replaced_of_ne hid,
        ih hids.2 ((List.mem_cons.mp ho).resolve_left (Ne.symm hid))]

/-- What a run holds was observed. -/
theorem exists_of_results {m : Keyed Identifier (Observation α)} {i : Identifier}
    (h : (xs.foldl (fun m x => m.insert x.actuator.job.id x.observation) m).get? i = some o) :
    (∃ x ∈ xs, x.actuator.job.id = i ∧ x.observation = o) ∨ m.get? i = some o := by
  induction xs generalizing m with
  | nil => exact .inr h
  | cons x xs ih =>
    obtain ⟨y, hy, hyo⟩ | hm := ih h
    · exact .inl ⟨y, List.mem_cons_of_mem _ hy, hyo⟩
    · rw [Keyed.get?_insert] at hm
      split at hm
      · rename_i hid
        exact .inl ⟨x, List.mem_cons_self, hid, Option.some.inj hm⟩
      · exact .inr hm

/-! ## The edges of a trace -/

theorem generated_mem_edges : ⟨k, .generated, k'⟩ ∈ x.edges setting ↔
    k' = .observation x.actuator.job.id ∧ ((∃ a ∈ x.activity, k = .activity a.id) ∨
      setting.target = some x.actuator.job.id ∧ k = .activity setting.activity) := by
  cases hx : x.activity <;> by_cases htarget : setting.target = some x.actuator.job.id <;>
    simp [edges, made, accepted, hx, htarget] <;> tauto

theorem associated_mem_edges : ⟨k, .associatedWith, k'⟩ ∈ x.edges setting ↔
    k' = .agent setting.agent ∧ ∃ a ∈ x.activity, k = .activity a.id := by
  cases hx : x.activity <;> by_cases htarget : setting.target = some x.actuator.job.id <;>
    simp [edges, made, accepted, hx, htarget, and_comm]

theorem used_mem_edges : ⟨k, .used, k'⟩ ∈ x.edges setting ↔
    (∃ c ∈ x.actuator.children, k' = .observation c.job.id) ∧
      ∃ a ∈ x.activity, k = .activity a.id := by
  cases hx : x.activity <;> by_cases htarget : setting.target = some x.actuator.job.id <;>
    simp [edges, made, accepted, hx, htarget] <;> tauto

theorem childOf_mem_edges : ⟨k, .childOf, k'⟩ ∈ x.edges setting ↔
    ∃ c ∈ x.actuator.children, k = .observation c.job.id ∧
      k' = .observation x.actuator.job.id := by
  cases hx : x.activity <;> by_cases htarget : setting.target = some x.actuator.job.id <;>
    simp [edges, made, accepted, hx, htarget, eq_comm]

end Trace

end Run

namespace Actuator

mutual

theorem children_mem_walk : (a : Actuator α) → {b c : Actuator α} → b ∈ a.walk → c ∈ b.children →
    c ∈ a.walk
  | .mk j as, b, c, hb, hc => by
    rw [walk] at hb ⊢
    refine List.mem_cons_of_mem _ ?_
    rcases List.mem_cons.mp hb with rfl | hb
    · exact mem_walkAll hc
    · exact children_mem_walkAll as hb hc

theorem children_mem_walkAll : (as : List (Actuator α)) → {b c : Actuator α} → b ∈ walkAll as →
    c ∈ b.children → c ∈ walkAll as
  | [], _, _, hb, _ => absurd hb List.not_mem_nil
  | a :: as, b, c, hb, hc => by
    rw [walkAll, List.mem_append] at hb ⊢
    exact hb.imp (fun hb => children_mem_walk a hb hc) fun hb => children_mem_walkAll as hb hc

end

end Actuator

/-- There are fewer than 2 to the power of 64 identifiers. -/
theorem Identifier.length_lt {is : List Identifier} (h : is.Nodup) : is.length < UInt64.size := by
  have hvals : (is.map Identifier.val).Nodup := h.map fun _ _ => Identifier.ext
  have hsub : is.map Identifier.val ⊆ List.range' 1 (UInt64.size - 1) := by
    intro n hn
    obtain ⟨i, -, rfl⟩ := List.mem_map.mp hn
    have := i.pos
    have := i.lt
    rw [List.mem_range'_1]
    omega
  have hle := (List.subperm_of_subset hvals hsub).length_le
  rw [List.length_map, List.length_range'] at hle
  exact Nat.lt_of_le_of_lt hle (Nat.sub_one_lt (by decide))

namespace Dataflow

open Run

variable {d : Dataflow α} {setting : RunSetting α} {o : Observation α} {before after : Twin α}
  {a : Activity} {xs : List (Trace α)}

/-- What a run that succeeded has added: its activity, who answers for it unless that was known, and
a trace of each actuator. -/
structure Traced (d : Dataflow α) (setting : RunSetting α) (o : Observation α) (before : Twin α)
    (a : Activity) (xs : List (Trace α)) (after : Twin α) : Prop where
  activity : setting.activity = a.id
  kind : a.kind = .resolution
  status : a.status = .succeeded
  target : setting.target = some o.id
  course : xs.map Trace.actuator = d.course
  whole : ∀ x ∈ xs, x.Whole
  result : ∃ x ∈ xs, x.observation = o
  grows : before.Grows (.activity a :: (before.newAgent setting.agent ++ xs.flatMap Trace.nodes))
    (⟨.activity a.id, .associatedWith, .agent setting.agent⟩ :: xs.flatMap (Trace.edges setting))
    after

theorem run_traced {registry : Registry α} {agent : String} {ctx : Context α}
    {stopped asked : Bool} {requests : Nat → Bool} {i : Identifier} (hids : d.ids.Nodup)
    (htarget : d.target = some i) (hi : i ∈ d.ids)
    (hnew : ∀ i ∈ d.ids, before.contains (.observation i) = false)
    (hfree : before.Free (d.walk.countP Actuator.begins + 1))
    (h : d.run registry agent ctx before stopped requests = (.ok o, after, asked)) :
    d.target = some o.id ∧ ∃ setting a xs,
      setting.agent = ctx.constraints.provenanceAgent?.getD agent ∧
        d.Traced setting o before a xs after := by
  rcases hrun : Edit.on (Run.dataflow registry agent d ctx requests) { twin := before, stopped }
    with ⟨r, s'⟩
  rw [run_of_on hrun] at h
  cases h
  obtain ⟨setting, s₁, s₂, hagent, hactivity, hsetting, htwin₁, hresults₁, hactuators, hconclude⟩ :=
    dataflow_ok hrun
  obtain ⟨p, hp, rfl, hfinish⟩ := conclude_ok htarget hconclude
  have hperm : (d.course.map fun a => a.job.id).Perm d.ids :=
    (Actuator.perm_courseAll d.actuators).map _
  have hcount : d.course.countP Actuator.begins = d.walk.countP Actuator.begins :=
    (Actuator.perm_courseAll d.actuators).countP_eq _
  have hsize : d.walk.countP Actuator.begins < UInt64.size := by
    refine Nat.lt_of_le_of_lt List.countP_le_length ?_
    simpa [ids] using Identifier.length_lt hids
  -- the run begins, and only the numbers for the actuators are left to take
  have hbegun : before.Grows _ _ s₁.twin := htwin₁ ▸ Twin.Grows.begin before .resolution
    (Run.description d ctx) setting.agent hfree.next
  have hfree₁ : s₁.twin.Free (d.course.countP Actuator.begins) := by
    rw [hcount]
    refine hfree.taken hsize (by rw [htwin₁, Twin.nextActivity_begin]) fun id hin => ?_
    rw [hbegun.contains, List.map_cons, List.mem_cons] at hin
    rcases hin with hin | hin | hin
    · exact .inl hin
    · exact .inr (NodeKey.activity.inj hin)
    · cases Twin.mem_keys_newAgent hin
  have hother : ∀ i, NodeKey.observation i ∉ (TwinNode.activity ⟨before.nextActivity, .resolution,
      Run.description d ctx, .running⟩ :: before.newAgent setting.agent).map TwinNode.key := by
    intro i hin
    rw [List.map_cons, List.mem_cons] at hin
    rcases hin with hin | hin
    · cases hin
    · cases Twin.mem_keys_newAgent hin
  have hnew₁ : ∀ b ∈ d.course, s₁.twin.contains (.observation b.job.id) = false := fun b hb =>
    hbegun.notContains.mpr ⟨hnew _ (hperm.mem_iff.mp (List.mem_map_of_mem hb)), hother _⟩
  rw [actuators_eq] at hactuators
  obtain ⟨xs, hcourse, hleaves⟩ := forM_leaves hactuators (hperm.nodup_iff.mpr hids) hnew₁
    (hbegun.contains_agent (List.subset_cons_self _ _)) hfree₁ (hcount ▸ Nat.le_of_lt hsize)
  -- the observation that the plan was made for is recorded again
  rw [RunState.results_looked, hleaves.results, hresults₁] at hp
  obtain ⟨x, hx, rfl, rfl⟩ := (Trace.exists_of_results hp).resolve_right (by
    simp [Keyed.empty, Keyed.get?, Keyed.getIn])
  have hid : (d.concluded x.observation).id = x.actuator.job.id := (hleaves.whole x hx).id
  have hobserved : xs.map (fun x => x.observation.id) = d.course.map fun a => a.job.id := by
    rw [course, ← hcourse, List.map_map]
    exact List.map_congr_left fun y hy => (hleaves.whole y hy).id
  have hrecorded := (hbegun.trans hleaves.grows).put
    (n := .observation (d.concluded x.observation)) (hnew _ (hid ▸ hi))
  rw [Twin.putIn_append (hother _), Trace.putIn_flatMap
    (hobserved ▸ hperm.nodup_iff.mpr hids) (hobserved ▸ hid ▸ hperm.mem_iff.mpr hi)] at hrecorded
  rw [hactivity, RunState.twin_looked] at hfinish
  have hended := hrecorded.finish hfree.next hfinish
  refine ⟨hid ▸ htarget, setting,
    ⟨before.nextActivity, .resolution, Run.description d ctx, .succeeded⟩,
    xs.map (Trace.replaced (d.concluded x.observation)), hagent, hactivity, rfl, rfl,
    hsetting.trans (hid ▸ htarget), ?_, ?_, ?_, ?_⟩
  · rw [List.map_map]
    exact (List.map_congr_left fun _ _ => Trace.actuator_replaced).trans hcourse
  · exact List.forall_mem_map.mpr fun y hy => (hleaves.whole y hy).replaced _
  · have hsame : x.observation.id = (d.concluded x.observation).id := rfl
    exact ⟨_, List.mem_map_of_mem hx, by rw [Trace.replaced, if_pos hsame]⟩
  · simpa [List.flatMap_map] using hended

/-! ## What a run mirrors -/

/-- An activity computed an actuator for an agent: it made the observation of the actuator and read
those of its children. -/
structure Computes (x : Activity) (a : Actuator α) (agent : String) (edges : List Edge) : Prop where
  kind : x.kind = .contextualization
  status : x.status = .succeeded
  generated : ∀ k, ⟨.activity x.id, .generated, k⟩ ∈ edges ↔ k = .observation a.job.id
  associated : ∀ k, ⟨.activity x.id, .associatedWith, k⟩ ∈ edges ↔ k = .agent agent
  used : ∀ k, ⟨.activity x.id, .used, k⟩ ∈ edges ↔
    ∃ c ∈ a.children, k = .observation c.job.id

/-- Nodes and edges that are the provenance of a plan that was run for an agent and gave an
observation. -/
structure Mirrors (d : Dataflow α) (agent : String) (o : Observation α)
    (nodes : List (TwinNode α)) (edges : List Edge) : Prop where
  apart : (nodes.map TwinNode.key).Nodup ∧ edges.Nodup
  /-- Every actuator has one observation, in the order of computation. -/
  observed : (nodes.filterMap TwinNode.observation?).map Observation.id =
    d.course.map fun a => a.job.id
  /-- One activity computed an actuator that is no reference. -/
  computed : ∀ a ∈ d.walk, a.job.kind ≠ .reference →
    ∃ x, .activity x ∈ nodes ∧ Computes x a agent edges ∧
      ∀ y, .activity y ∈ nodes → y.kind = .contextualization →
        ⟨.activity y.id, .generated, .observation a.job.id⟩ ∈ edges → y = x
  childOf : ∀ k k', ⟨k, .childOf, k'⟩ ∈ edges ↔
    ∃ a ∈ d.walk, ∃ c ∈ a.children, k = .observation c.job.id ∧ k' = .observation a.job.id
  /-- One activity is that of the run. -/
  resolution : ∃ x, (∀ y, .activity y ∈ nodes ∧ y.kind = .resolution ↔ y = x) ∧
    x.status = .succeeded ∧
      ∀ k, ⟨.activity x.id, .generated, k⟩ ∈ edges ↔ k = .observation o.id
  target : d.target = some o.id ∧ .observation o ∈ nodes

/-- What lists have in common when they have no repetition together comes from one of them. -/
theorem eq_of_mem_flatMap {β γ : Type} {f : β → List γ} {l : List β} (h : (l.flatMap f).Nodup)
    {x y : β} (hx : x ∈ l) (hy : y ∈ l) {k : γ} (hkx : k ∈ f x) (hky : k ∈ f y) : x = y := by
  induction l with
  | nil => cases hx
  | cons z l ih =>
    rw [List.flatMap_cons, List.nodup_append] at h
    obtain ⟨-, hl, hapart⟩ := h
    have hin : ∀ {w}, w ∈ l → k ∈ f w → k ∈ l.flatMap f := fun hw hk =>
      List.mem_flatMap.mpr ⟨_, hw, hk⟩
    rcases List.mem_cons.mp hx with rfl | hx' <;> rcases List.mem_cons.mp hy with rfl | hy'
    · rfl
    · exact absurd rfl (hapart k hkx k (hin hy' hky))
    · exact absurd rfl (hapart k hky k (hin hx' hkx))
    · exact ih hl hx' hy'

namespace Traced

variable {k k' : NodeKey} {x y : Trace α} {b b' : Activity} {e : Edge}

/-- The nodes that a run has added. -/
abbrev nodes (before : Twin α) (setting : RunSetting α) (a : Activity) (xs : List (Trace α)) :
    List (TwinNode α) := .activity a :: (before.newAgent setting.agent ++ xs.flatMap Trace.nodes)

/-- The edges that a run has added. -/
abbrev edges (setting : RunSetting α) (a : Activity) (xs : List (Trace α)) : List Edge :=
  ⟨.activity a.id, .associatedWith, .agent setting.agent⟩ :: xs.flatMap (Trace.edges setting)

theorem activity_mem_nodes : .activity b ∈ nodes before setting a xs ↔
    b = a ∨ ∃ x ∈ xs, b ∈ x.activity := by
  have hagent : TwinNode.activity b ∉ before.newAgent setting.agent := fun h => by
    cases Twin.mem_newAgent h
  simp [nodes, hagent, Trace.nodes, eq_comm]

theorem apart (h : d.Traced setting o before a xs after) (hafter : after.Sound) :
    ((nodes before setting a xs).map TwinNode.key).Nodup ∧
      ∀ k ∈ (nodes before setting a xs).map TwinNode.key, before.contains k = false := by
  have hkeys := hafter.keys
  rw [h.grows.nodes, List.map_append, List.nodup_append] at hkeys
  refine ⟨hkeys.2.1, fun k hk => ?_⟩
  rw [Bool.eq_false_iff, ne_eq, Twin.contains_iff]
  exact fun hin => hkeys.2.2 k hin k hk rfl

theorem eq_of_key (h : ((nodes before setting a xs).map TwinNode.key).Nodup) (hx : x ∈ xs)
    (hy : y ∈ xs) (hkx : k ∈ x.nodes.map TwinNode.key) (hky : k ∈ y.nodes.map TwinNode.key) :
    x = y := by
  rw [List.map_cons, List.map_append, List.map_flatMap] at h
  exact eq_of_mem_flatMap ((List.nodup_cons.mp h).2.of_append_right) hx hy hkx hky

theorem activity_eq (h : ((nodes before setting a xs).map TwinNode.key).Nodup)
    (hb : .activity b ∈ nodes before setting a xs) (hb' : .activity b' ∈ nodes before setting a xs)
    (hid : b.id = b'.id) : b = b' :=
  TwinNode.activity.inj (List.inj_on_of_nodup_map h hb hb' (congrArg NodeKey.activity hid))

theorem generated_mem_edges : ⟨k, .generated, k'⟩ ∈ edges setting a xs ↔
    ∃ x ∈ xs, k' = .observation x.actuator.job.id ∧ ((∃ b ∈ x.activity, k = .activity b.id) ∨
      setting.target = some x.actuator.job.id ∧ k = .activity setting.activity) := by
  simp [edges, Trace.generated_mem_edges]

theorem associated_mem_edges : ⟨k, .associatedWith, k'⟩ ∈ edges setting a xs ↔
    k' = .agent setting.agent ∧
      (k = .activity a.id ∨ ∃ x ∈ xs, ∃ b ∈ x.activity, k = .activity b.id) := by
  simp only [edges, List.mem_cons, List.mem_flatMap, Trace.associated_mem_edges, Edge.mk.injEq,
    true_and]
  tauto

theorem used_mem_edges : ⟨k, .used, k'⟩ ∈ edges setting a xs ↔
    ∃ x ∈ xs, (∃ c ∈ x.actuator.children, k' = .observation c.job.id) ∧
      ∃ b ∈ x.activity, k = .activity b.id := by
  simp [edges, Trace.used_mem_edges]

theorem childOf_mem_edges : ⟨k, .childOf, k'⟩ ∈ edges setting a xs ↔
    ∃ x ∈ xs, ∃ c ∈ x.actuator.children, k = .observation c.job.id ∧
      k' = .observation x.actuator.job.id := by
  simp [edges, Trace.childOf_mem_edges]

theorem actuator_mem_walk (h : d.Traced setting o before a xs after) (hx : x ∈ xs) :
    x.actuator ∈ d.walk := by
  have hcourse : x.actuator ∈ d.course := h.course ▸ List.mem_map_of_mem hx
  exact (Actuator.perm_courseAll d.actuators).mem_iff.mp hcourse

theorem exists_of_mem_walk (h : d.Traced setting o before a xs after) {c : Actuator α}
    (hc : c ∈ d.walk) : ∃ x ∈ xs, x.actuator = c := by
  have hcourse : c ∈ d.course := (Actuator.perm_courseAll d.actuators).mem_iff.mpr hc
  rw [← h.course] at hcourse
  exact List.mem_map.mp hcourse

/-- Every edge that was added begins at something that was added. -/
theorem source_new (h : d.Traced setting o before a xs after) (hafter : after.Sound)
    (hnew : ∀ i ∈ d.ids, before.contains (.observation i) = false) (he : e ∈ edges setting a xs) :
    before.contains e.source = false := by
  obtain ⟨-, hapart⟩ := h.apart hafter
  have hactivity : ∀ {b}, .activity b ∈ nodes before setting a xs →
      before.contains (.activity b.id) = false := fun hb =>
    hapart _ (List.mem_map_of_mem (f := TwinNode.key) hb)
  have hrun := hactivity (activity_mem_nodes.mpr (.inl rfl))
  obtain ⟨k, relationship, k'⟩ := e
  cases relationship with
  | generated =>
    obtain ⟨x, hx, -, ⟨b, hb, rfl⟩ | ⟨-, rfl⟩⟩ := generated_mem_edges.mp he
    · exact hactivity (activity_mem_nodes.mpr (.inr ⟨x, hx, hb⟩))
    · exact h.activity ▸ hrun
  | associatedWith =>
    obtain ⟨-, rfl | ⟨x, hx, b, hb, rfl⟩⟩ := associated_mem_edges.mp he
    · exact hrun
    · exact hactivity (activity_mem_nodes.mpr (.inr ⟨x, hx, hb⟩))
  | used =>
    obtain ⟨x, hx, -, b, hb, rfl⟩ := used_mem_edges.mp he
    exact hactivity (activity_mem_nodes.mpr (.inr ⟨x, hx, hb⟩))
  | childOf =>
    obtain ⟨x, hx, c, hc, rfl, -⟩ := childOf_mem_edges.mp he
    refine hnew _ (List.mem_map_of_mem (f := fun a : Actuator α => a.job.id) ?_)
    exact Actuator.children_mem_walkAll _ (h.actuator_mem_walk hx) hc

theorem computes (h : d.Traced setting o before a xs after)
    (hkeys : ((nodes before setting a xs).map TwinNode.key).Nodup) {es : List Edge}
    (hes : ∀ e, e ∈ es ↔ e ∈ edges setting a xs) (hx : x ∈ xs) (hb : b ∈ x.activity) :
    Computes b x.actuator setting.agent es := by
  obtain ⟨hkind, hstatus⟩ := (h.whole x hx).activity b hb
  have hmine : ∀ {y : Trace α} {b' : Activity}, y ∈ xs → b' ∈ y.activity → b.id = b'.id → x = y :=
    fun hy hb' hid => eq_of_key hkeys hx hy (Trace.mem_keys.mpr (.inl ⟨b, hb, rfl⟩))
      (Trace.mem_keys.mpr (.inl ⟨_, hb', congrArg _ hid⟩))
  refine ⟨hkind, hstatus, fun k => ?_, fun k => ?_, fun k => ?_⟩
  · rw [hes, generated_mem_edges]
    refine ⟨?_, fun hk => ⟨x, hx, hk, .inl ⟨b, hb, rfl⟩⟩⟩
    rintro ⟨y, hy, rfl, ⟨b', hb', hid⟩ | ⟨-, hid⟩⟩
    · rw [hmine hy hb' (NodeKey.activity.inj hid)]
    · -- the activity of the run is of another kind
      have hrun := activity_eq hkeys (activity_mem_nodes.mpr (.inr ⟨x, hx, hb⟩))
        (activity_mem_nodes.mpr (.inl rfl)) ((NodeKey.activity.inj hid).trans h.activity)
      rw [hrun, h.kind] at hkind
      cases hkind
  · rw [hes, associated_mem_edges]
    exact ⟨And.left, fun hk => ⟨hk, .inr ⟨x, hx, b, hb, rfl⟩⟩⟩
  · rw [hes, used_mem_edges]
    refine ⟨?_, fun hk => ⟨x, hx, hk, b, hb, rfl⟩⟩
    rintro ⟨y, hy, hk, b', hb', hid⟩
    rwa [hmine hy hb' (NodeKey.activity.inj hid)]

theorem observed (h : d.Traced setting o before a xs after) :
    ((nodes before setting a xs).filterMap TwinNode.observation?).map Observation.id =
      d.course.map fun a => a.job.id := by
  have hagent : (before.newAgent setting.agent).filterMap TwinNode.observation? = [] := by
    refine List.filterMap_eq_nil_iff.mpr fun n hn => ?_
    rw [Twin.mem_newAgent hn]
    rfl
  have htrace : ∀ x : Trace α, x.nodes.filterMap TwinNode.observation? = [x.observation] := by
    intro x
    unfold Trace.nodes
    cases x.activity <;> rfl
  have hall : ∀ ys : List (Trace α), (ys.flatMap Trace.nodes).filterMap TwinNode.observation? =
      ys.map Trace.observation := by
    intro ys
    induction ys with
    | nil => rfl
    | cons y ys ih =>
      rw [List.flatMap_cons, List.filterMap_append, htrace, ih]
      rfl
  rw [nodes, List.filterMap_cons, List.filterMap_append, hagent, hall]
  rw [← h.course, List.map_map]
  simp only [TwinNode.observation?, List.nil_append, List.map_map]
  exact List.map_congr_left fun x hx => (h.whole x hx).id

/-- What a run has added is the provenance of its plan. -/
theorem mirrors (h : d.Traced setting o before a xs after) (hbefore : before.Sound)
    (hafter : after.Sound) (htarget : d.target = some o.id)
    (hnew : ∀ i ∈ d.ids, before.contains (.observation i) = false) :
    ∃ ns es, after.nodes = before.nodes ++ ns ∧ after.edges = before.edges ++ es ∧
      d.Mirrors setting.agent o ns es := by
  obtain ⟨es, hafterEdges⟩ := h.grows.kept
  have hnodup := hafter.edges
  rw [← hafterEdges, List.nodup_append] at hnodup
  -- the edges that were there began at nodes that were there
  have hes : ∀ e, e ∈ es ↔ e ∈ edges setting a xs := by
    intro e
    have hgrows := h.grows.edges e
    rw [← hafterEdges, List.mem_append] at hgrows
    constructor
    · intro he
      exact (hgrows.mp (.inr he)).resolve_left fun hold => hnodup.2.2 e hold e he rfl
    · intro he
      refine (hgrows.mpr (.inr he)).resolve_left fun hold => ?_
      have hcontains := hbefore.source e hold
      rw [h.source_new hafter hnew he] at hcontains
      cases hcontains
  obtain ⟨hkeys, -⟩ := h.apart hafter
  refine ⟨_, es, h.grows.nodes, hafterEdges.symm, ⟨hkeys, hnodup.2.1⟩, h.observed, ?_, ?_, ?_,
    htarget, ?_⟩
  · intro c hc hkind
    obtain ⟨x, hx, rfl⟩ := h.exists_of_mem_walk hc
    obtain ⟨b, hb⟩ := Option.ne_none_iff_exists'.mp (mt (h.whole x hx).reference.mp hkind)
    refine ⟨b, activity_mem_nodes.mpr (.inr ⟨x, hx, hb⟩), h.computes hkeys hes hx hb, ?_⟩
    intro y hy hykind hgenerated
    rw [hes, generated_mem_edges] at hgenerated
    obtain ⟨x', hx', hid, ⟨b', hb', hyb⟩ | ⟨-, hya⟩⟩ := hgenerated
    · have hsame : x = x' := eq_of_key hkeys hx hx'
        (Trace.mem_keys.mpr (.inr (by rw [(h.whole x hx).id])))
        (Trace.mem_keys.mpr (.inr (by rw [(h.whole x' hx').id, hid])))
      cases hb.symm.trans (hsame ▸ hb')
      exact activity_eq hkeys hy (activity_mem_nodes.mpr (.inr ⟨x, hx, hb⟩))
        (NodeKey.activity.inj hyb)
    · have hrun := activity_eq hkeys hy (activity_mem_nodes.mpr (.inl rfl))
        ((NodeKey.activity.inj hya).trans h.activity)
      rw [hrun, h.kind] at hykind
      cases hykind
  · intro k k'
    rw [hes, childOf_mem_edges]
    constructor
    · rintro ⟨x, hx, c, hc, hk, hk'⟩
      exact ⟨x.actuator, h.actuator_mem_walk hx, c, hc, hk, hk'⟩
    · rintro ⟨b, hb, c, hc, hk, hk'⟩
      obtain ⟨x, hx, rfl⟩ := h.exists_of_mem_walk hb
      exact ⟨x, hx, c, hc, hk, hk'⟩
  · refine ⟨a, fun y => ?_, h.status, fun k => ?_⟩
    · rw [activity_mem_nodes]
      refine ⟨?_, fun hy => ⟨.inl hy, hy ▸ h.kind⟩⟩
      rintro ⟨hy | ⟨x, hx, hy⟩, hkind⟩
      · exact hy
      · rw [((h.whole x hx).activity y hy).1] at hkind
        cases hkind
    · rw [hes, generated_mem_edges]
      constructor
      · rintro ⟨x, hx, rfl, ⟨b, hb, hab⟩ | ⟨hx', -⟩⟩
        · have hrun := activity_eq hkeys (activity_mem_nodes.mpr (.inl rfl))
            (activity_mem_nodes.mpr (.inr ⟨x, hx, hb⟩)) (NodeKey.activity.inj hab)
          have hkind := ((h.whole x hx).activity b hb).1
          rw [← hrun, h.kind] at hkind
          cases hkind
        · rw [h.target] at hx'
          rw [Option.some.inj hx']
      · rintro rfl
        obtain ⟨x, hx, rfl⟩ := h.result
        have hid := (h.whole x hx).id
        exact ⟨x, hx, by rw [hid], .inr ⟨by rw [h.target, hid], by rw [h.activity]⟩⟩
  · obtain ⟨x, hx, rfl⟩ := h.result
    have hnode : TwinNode.observation x.observation ∈ x.nodes := by simp [Trace.nodes]
    exact List.mem_cons_of_mem _ (List.mem_append_right _ (List.mem_flatMap.mpr ⟨x, hx, hnode⟩))

end Traced

end Dataflow

/-! ## Runs on twins that were made -/

namespace Twin

/-- Twins that can be made: anew, from a snapshot, and by recording, beginning and ending activities
and linking. -/
inductive Made : Twin α → Prop where
  | new : Made {}
  | restored {s : Snapshot α} {t : Twin α} : ofSnapshot s = .ok t → Made t
  | recorded {t : Twin α} (o : Observation α) : Made t → Made (t.record o)
  | begun {t : Twin α} (kind : ActivityKind) (description agent : String) :
    Made t → Made (t.begin kind description agent).2
  | finished {t t' : Twin α} {id : UInt64} {status : Status} :
    Made t → t.finish id status = .ok t' → Made t'
  | linked {t t' : Twin α} {source target : NodeKey} {r : Relationship} :
    Made t → t.link source r target = .ok t' → Made t'

theorem stable_made : Stable (Made : Twin α → Prop) where
  record := .recorded
  begin := .begun
  finish := .finished
  link := .linked

/-- A run leads from a twin that can be made to such a twin, however it ends. -/
theorem Made.run {t : Twin α} (h : t.Made) (d : Dataflow α) (registry : Registry α)
    (agent : String) (ctx : Context α) (stopped : Bool) (requests : Nat → Bool) :
    (d.run registry agent ctx t stopped requests).2.1.Made :=
  d.run_keeps registry agent ctx stopped requests stable_made h

variable {t : Twin α} {n : TwinNode α}

theorem Made.sound (h : t.Made) : t.Sound := by
  induction h with
  | new => exact .new
  | restored h => exact (Sound.of_ofSnapshot h).1
  | recorded o _ ih => exact ih.put _
  | begun kind description agent _ ih => exact ih.begin kind description agent
  | finished _ h ih => exact ih.finish h
  | linked _ h ih => exact ih.link h

theorem Sound.node?_of_mem (h : t.Sound) (hn : n ∈ t.nodes) : t.node? n.key = some n := by
  have hcontains : t.contains n.key = true := contains_iff.mpr (List.mem_map_of_mem hn)
  obtain ⟨m, hm⟩ := Option.isSome_iff_exists.mp hcontains
  rw [hm, List.inj_on_of_nodup_map h.keys (List.mem_of_find?_eq_some hm) hn (key_of_node? hm)]

theorem Sound.observation?_of_mem {o : Observation α} (h : t.Sound)
    (ho : .observation o ∈ t.nodes) : t.observation? o.id = some o := by
  have hnode : t.node? (.observation o.id) = some (.observation o) := h.node?_of_mem ho
  rw [observation?, hnode]
  rfl

end Twin

namespace Resolution

variable {sources : Sources α} {limits : Limits α} {o : Observable} {ctx ctx' : Context α}
  {r : Resolution α} {maxLevel : Option Nat} {allocator rest : Allocator} {d : Dataflow α}
  {twin t : Twin α} {registry : Registry α} {agent : String} {stopped asked : Bool}
  {requests : Nat → Bool} {p : Observation α}

/-- A run of a lowered plan that succeeds adds the provenance of the plan, and changes nothing that
was there, when the numbers that its activities take are not in use. -/
theorem run_mirrors (h : resolve sources limits o ctx = .ok r)
    (hlower : r.lower maxLevel allocator = (.ok d, rest)) (htwin : twin.Made)
    (hnew : ∀ i ∈ d.ids, twin.contains (.observation i) = false)
    (hfree : twin.Free (d.walk.countP Actuator.begins + 1))
    (hrun : d.run registry agent ctx' twin stopped requests = (.ok p, t, asked)) :
    ∃ nodes edges, t.nodes = twin.nodes ++ nodes ∧ t.edges = twin.edges ++ edges ∧
      d.Mirrors (ctx'.constraints.provenanceAgent?.getD agent) p nodes edges ∧
      t.observation? p.id = some p := by
  have hids : d.ids.Nodup := by
    refine List.Nodup.of_map Identifier.val ?_
    rw [(lower_ids h hlower).1]
    exact List.nodup_range'
  have hcoherent := lower_coherent h hlower
  have hsome : d.isEmpty = false := by
    rw [Bool.eq_false_iff, ne_eq]
    intro hempty
    have hnothing := Dataflow.run_isEmpty hempty registry agent ctx' twin stopped requests
    rw [hrun] at hnothing
    cases hnothing
  obtain ⟨i, htarget⟩ := Option.ne_none_iff_exists'.mp (hcoherent.aimed hsome)
  obtain ⟨htarget, setting, a, xs, hagent, htraced⟩ :=
    Dataflow.run_traced hids htarget (hcoherent.targeted i htarget) hnew hfree hrun
  have hsound : t.Sound := by
    have hkept := d.sound_run registry agent ctx' stopped requests htwin.sound
    rwa [hrun] at hkept
  obtain ⟨nodes, edges, hnodes, hedges, hmirrors⟩ :=
    htraced.mirrors htwin.sound hsound htarget hnew
  have hfound : .observation p ∈ t.nodes :=
    hnodes ▸ List.mem_append_right _ hmirrors.target.2
  exact ⟨nodes, edges, hnodes, hedges, hagent ▸ hmirrors, hsound.observation?_of_mem hfound⟩

/-! ## Twins with old activities -/

instance (t : Twin α) (count : Nat) : Decidable (t.Free count) :=
  inferInstanceAs (Decidable (∀ k < count, t.contains _ = false))

/-- An activity of an earlier run. -/
def earlier (id : UInt64) : TwinNode Number := .activity ⟨id, .resolution, "earlier", .succeeded⟩

/-- Land is found from soil and water, and soil from the same water. -/
def sharing : Sources Number :=
  knowing [needing "x.land" land [soil, water], needing "x.soil" soil [water],
    needing "x.water" water []]

/-- What holds of a plan for land, the twin it is run on, where activities have given numbers, what
the run gives, and the twin afterwards. -/
def RunsOn (numbers : List UInt64) (P : Dataflow Number → Twin Number → Observation Number →
    Twin Number → Prop) : Prop :=
  ∃ twin r d rest p t asked, Twin.ofSnapshot ⟨numbers.map earlier, []⟩ = .ok twin ∧
    resolve sharing ({} : Config).limits land everywhere = .ok r ∧
    r.lower none {} = (.ok d, rest) ∧ (∀ i ∈ d.ids, twin.contains (.observation i) = false) ∧
    d.run .builtIn "a" everywhere twin false = (.ok p, t, asked) ∧ P d twin p t

theorem runsOn_of_any {numbers : List UInt64} {P : Dataflow Number → Twin Number →
    Observation Number → Twin Number → Prop} [∀ d twin p t, Decidable (P d twin p t)]
    (h : ((Twin.ofSnapshot ⟨numbers.map earlier, []⟩).toOption.any fun twin => decide
      (((resolve sharing ({} : Config).limits land everywhere).toOption.any fun r => decide
        (((r.lower none {}).1.toOption.any fun d => decide
          ((∀ i ∈ d.ids, twin.contains (.observation i) = false) ∧
            ((d.run .builtIn "a" everywhere twin false).1.toOption.any fun p => decide
              (P d twin p (d.run .builtIn "a" everywhere twin false).2.1)) = true)) = true)) =
                true)) = true) :
    RunsOn numbers P := by
  obtain ⟨twin, htwin, h⟩ := exists_of_any h
  obtain ⟨r, hr, h⟩ := exists_of_any h
  obtain ⟨d, hd, hnew, h⟩ := exists_of_any h
  obtain ⟨p, hp, hP⟩ := exists_of_any h
  exact ⟨twin, r, d, _, p, _, _, htwin, hr, Prod.ext hd rfl, hnew, Prod.ext hp rfl, hP⟩

/-- Soil and land read the same water, and so there is a reference. -/
theorem run_mirrors_sharing :
    RunsOn [1, 7] fun d twin p t => (∃ a ∈ d.walk, a.job.kind = .reference) ∧
      d.walk.length = 4 ∧ twin.nodes.length = 2 ∧ t.nodes.length = 11 ∧
      ∃ nodes edges, t.nodes = twin.nodes ++ nodes ∧ t.edges = twin.edges ++ edges ∧
        d.Mirrors "a" p nodes edges ∧ t.observation? p.id = some p := by
  have hruns : RunsOn [1, 7] fun d twin _ t => (∃ a ∈ d.walk, a.job.kind = .reference) ∧
      d.walk.length = 4 ∧ twin.nodes.length = 2 ∧ t.nodes.length = 11 ∧
      twin.Free (d.walk.countP Actuator.begins + 1) := runsOn_of_any (by decide +kernel)
  obtain ⟨twin, r, d, rest, p, t, asked, htwin, hr, hd, hnew, hrun, href, hwalk, hbefore, hafter,
    hfree⟩ := hruns
  exact ⟨twin, r, d, rest, p, t, asked, htwin, hr, hd, hnew, hrun, href, hwalk, hbefore, hafter,
    run_mirrors hr hd (.restored htwin) hnew hfree hrun⟩

/-- After the greatest number comes zero. So a run on a twin with an activity of a great number
makes one of its activities in the place of an old one. -/
theorem run_replaces_activity :
    RunsOn [1, 18446744073709551614] fun _ twin _ t =>
      twin.activity? 1 = some ⟨1, .resolution, "earlier", .succeeded⟩ ∧
        t.activity? 1 = some ⟨1, .contextualization, "observe t:Soil", .succeeded⟩ :=
  runsOn_of_any (by decide +kernel)

end Resolution

end Obsplan
