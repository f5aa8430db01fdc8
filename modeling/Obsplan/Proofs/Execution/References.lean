import Obsplan.Proofs.Dataflow.Plans
import Obsplan.Proofs.Execution.Traces
import Obsplan.Proofs.Resolution.Shape

/-!
# References in plans

A run holds the observations of all actuators that were computed, so where every reference refers to
something computed before it, the run finds what it takes over. Main statement: this holds for all
plans that are made of lowered resolutions, and when none of these was added twice, every reference
refers to exactly one actuator.
-/

namespace Obsplan

variable {α : Type} [Coordinate α] {β γ : Type}

namespace Run

open Edit

variable {s : RunState α} {setting : RunSetting α} {j : Job α}

/-! ## Parts that look up nothing -/

/-- A part of a run that leaves the observations as they are and does not miss one. -/
def Quiet (x : Run α β) : Prop :=
  ∀ s, (on x s).2.results = s.results ∧ ∀ i k, (on x s).1 ≠ .error (.missingReference i k)

namespace Quiet

variable {x : Run α β} {f : β → Run α γ}

theorem pure (b : β) : Quiet (Pure.pure b : Run α β) := fun _ => ⟨rfl, fun _ _ => by simp⟩

theorem throw {e : ExecutionError} (h : ∀ i k, e ≠ .missingReference i k) :
    Quiet (throw e : Run α β) := fun _ => ⟨rfl, fun i k he => h i k (Except.error.inj he)⟩

theorem throw_bind {e : ExecutionError} (h : ∀ i k, e ≠ .missingReference i k) :
    Quiet (MonadExcept.throw e >>= f) := fun _ => ⟨rfl, fun i k he => h i k (Except.error.inj he)⟩

theorem get : Quiet (get : Run α (RunState α)) := fun _ => ⟨rfl, fun _ _ => by simp⟩

theorem look (setting : RunSetting α) : Quiet (look setting) := fun _ => ⟨rfl, fun _ _ => by
  simp [on_look]⟩

theorem modify {f : RunState α → RunState α} (hf : ∀ s, (f s).results = s.results) :
    Quiet (modify f : Run α PUnit) := fun s => ⟨hf s, fun _ _ => by simp⟩

theorem bind (hx : Quiet x) (hf : ∀ b, Quiet (f b)) : Quiet (x >>= f) := by
  intro s
  have hfirst := hx s
  rw [on_bind]
  generalize on x s = run at hfirst
  obtain ⟨e | b, s'⟩ := run
  · exact ⟨hfirst.1, fun i k he => hfirst.2 i k (by rw [← Except.error.inj he])⟩
  · exact ⟨(hf b s').1.trans hfirst.1, (hf b s').2⟩

theorem forM {ι : Type} {f : ι → Run α PUnit} (hf : ∀ i, Quiet (f i)) (items : List ι) :
    Quiet (items.forM f) := by
  induction items with
  | nil => exact pure _
  | cons i items ih => exact (hf i).bind fun _ => ih

/-- What a twin refuses is nothing that a reference misses. -/
theorem update {edit : Edit (Twin α) ExecutionError PUnit} (hedit : Edit.Atomic edit)
    (h : ∀ t e, edit.made t = .error e → ∃ k, e = Twin.missing k) : Quiet (update edit) := by
  intro s
  cases hmade : edit.made s.twin with
  | error e =>
    obtain ⟨k, rfl⟩ := h _ _ hmade
    rw [on_update_error hedit hmade]
    exact ⟨rfl, fun _ _ => by simp [Twin.missing]⟩
  | ok t =>
    rw [on_update hmade]
    exact ⟨rfl, fun _ _ => by simp⟩

theorem record (change : Twin α → Twin α) : Quiet (record change) := modify fun _ => rfl

theorem begin (kind : ActivityKind) (description agent : String) :
    Quiet (begin kind description agent : Run α UInt64) := fun _ => ⟨rfl, fun _ _ => nofun⟩

theorem finish (activity : UInt64) (status : Status) :
    Quiet (finish activity status : Run α Unit) :=
  update (Twin.atomic_finishing _ _) fun _ _ h => Twin.finish_error h

theorem link (source : NodeKey) (r : Relationship) (target : NodeKey) :
    Quiet (link source r target : Run α Unit) :=
  update (Twin.atomic_linking _ _ _) fun _ _ h => Twin.link_error h

theorem abandon (activity : UInt64) {e : ExecutionError} (h : ∀ i k, e ≠ .missingReference i k) :
    Quiet (abandon activity e : Run α β) := (finish _ _).bind fun _ => throw h

end Quiet

theorem quiet_compute (deps : List (String × Option Value)) (activity : UInt64) (calls : List Call)
    (value : Option Value) : Quiet (compute setting j deps activity calls value) := by
  induction calls generalizing value with
  | nil => exact .pure _
  | cons call calls ih =>
    unfold compute
    split
    · exact .abandon _ (by simp)
    · split
      · exact ih _
      · exact .abandon _ (by simp)
      · exact .bind (.modify fun _ => rfl) fun _ => ih _
      · exact .throw (by simp)

theorem quiet_observe (j : Job α) (children : List (Actuator α)) :
    Quiet (observe setting j children) := by
  unfold observe
  refine .bind (.begin _ _ _) fun activity => .bind .get fun s =>
    .bind (quiet_compute _ _ _ _) fun value => .bind (.look _) fun stopped => ?_
  dsimp only
  split
  · exact (Quiet.finish _ _).bind fun _ => .throw_bind (by simp)
  · exact (Quiet.record _).bind fun _ => (Quiet.link _ _ _).bind fun _ =>
      (Quiet.forM (fun _ => .link _ _ _) children).bind fun _ =>
        (Quiet.finish _ _).bind fun _ => .pure _

theorem quiet_giveUp (activity : UInt64) {e : ExecutionError}
    (h : ∀ i k, e ≠ .missingReference i k) :
    Quiet (giveUp activity e : Run α (Observation α)) := by
  unfold giveUp
  split
  · exact .throw (by simp)
  · exact (Quiet.finish _ _).bind fun _ => .throw (by simp)
  · exact .abandon _ h

/-! ## Parts that hold what they computed -/

/-- A part of a run misses no observation, and when it succeeds it holds some, together with all
that were held before. -/
def Finds (x : Run α β) (s : RunState α) (ids : List Identifier) : Prop :=
  (∀ i k, (on x s).1 ≠ .error (.missingReference i k)) ∧
    ∀ b s', on x s = (.ok b, s') → s.results.keys ++ ids ⊆ s'.results.keys

namespace Finds

variable {x : Run α β} {f : β → Run α γ} {ids ids' : List Identifier}

theorem of_quiet (h : Quiet x) : Finds x s [] := by
  refine ⟨(h s).2, fun b s' hx => ?_⟩
  have hresults := (h s).1
  rw [hx] at hresults
  rw [hresults, List.append_nil]
  exact List.Subset.refl _

theorem bind (h : Finds x s ids)
    (hf : ∀ b s', s.results.keys ++ ids ⊆ s'.results.keys → Finds (f b) s' ids') :
    Finds (x >>= f) s (ids ++ ids') := by
  unfold Finds at h ⊢
  rw [on_bind]
  generalize on x s = run at h
  obtain ⟨e | b, s'⟩ := run
  · exact ⟨fun i k he => h.1 i k (by rw [← Except.error.inj he]), fun b s' hx => by cases hx⟩
  · have hkept := h.2 b s' rfl
    obtain ⟨hfound, hheld⟩ := hf b s' hkept
    refine ⟨hfound, fun c s'' hx => ?_⟩
    rw [← List.append_assoc]
    have hrest := List.append_subset.mp (hheld c s'' hx)
    exact List.append_subset.mpr ⟨List.Subset.trans hkept hrest.1, hrest.2⟩

theorem quiet_bind (h : Quiet x) (hf : ∀ b s', s.results.keys ⊆ s'.results.keys →
    Finds (f b) s' ids) : Finds (x >>= f) s ids :=
  (of_quiet h).bind fun b s' hkept => hf b s' (by simpa using hkept)

end Finds

theorem accept_finds (children : List (Actuator α)) (o : Observation α) (s : RunState α) :
    Finds (accept setting j children o) s [j.id] := by
  have hinsert : ∀ s, Finds (modify fun s : RunState α =>
      { s with results := s.results.insert j.id o } : Run α PUnit) s [j.id] := by
    refine fun s => ⟨by simp, fun b s' hs' => ?_⟩
    cases hs'
    rw [Keyed.keys_insert]
    split <;> simp [*]
  unfold accept
  refine .quiet_bind (.forM (fun _ => .link _ _ _) _) fun _ s₁ _ => ?_
  dsimp only
  split
  · exact .quiet_bind (.link _ _ _) fun _ s₂ _ => hinsert s₂
  · exact hinsert s₁

theorem takeOver_finds {i : Identifier} (hreference : j.reference = some i)
    (hi : i ∈ s.results.keys) : Finds (takeOver j) s [] := by
  obtain ⟨o, ho⟩ := Option.ne_none_iff_exists'.mp (mt Keyed.get?_eq_none.mp (not_not_intro hi))
  have htakeOver : ∃ p, on (takeOver j) s = (.ok p, { s with twin := s.twin.record p }) := by
    unfold takeOver
    rw [hreference]
    dsimp only
    rw [on_bind_ok (on_get s), ho]
    exact ⟨_, rfl⟩
  obtain ⟨p, hp⟩ := htakeOver
  refine ⟨by simp [hp], fun b s' hs' => ?_⟩
  cases hp.symm.trans hs'
  simp

/-- What refers to an observation that is held finds it. -/
theorem perform_finds (children : List (Actuator α))
    (h : j.kind = .reference → ∃ i ∈ s.results.keys, j.reference = some i) :
    Finds (perform setting j children) s [j.id] := by
  rw [perform_eq]
  refine .quiet_bind (.look _) fun stopped s₁ hkept => ?_
  split
  · exact ⟨by simp, fun b s' hs' => by cases hs'⟩
  · split
    · rename_i hkind
      obtain ⟨i, hi, hreference⟩ := h hkind
      exact (takeOver_finds hreference (hkept hi)).bind fun o s₂ _ => accept_finds _ o s₂
    · exact .quiet_bind (quiet_observe _ _) fun o s₂ _ => accept_finds _ o s₂

/-- Where references refer to something before them, actuators that are run in turn find it. -/
theorem forM_finds {done : List Identifier} {as : List (Actuator α)}
    (h : Role.Settled done (as.map Actuator.role)) (hdone : done ⊆ s.results.keys) :
    Finds (as.forM fun a => perform setting a.job a.children) s (as.map fun a => a.job.id) := by
  induction as generalizing s done with
  | nil => exact .of_quiet (.pure _)
  | cons a as ih =>
    rw [List.map_cons, Role.Settled] at h
    obtain ⟨hkind, hrest⟩ := h
    have hfirst : Finds (perform setting a.job a.children) s [a.job.id] :=
      perform_finds _ fun hreference => by
        obtain ⟨i, hi, hi'⟩ := hkind hreference
        exact ⟨i, hdone hi, hi'⟩
    refine hfirst.bind fun _ s₁ hkept => ih hrest ?_
    obtain ⟨hbefore, hself⟩ := List.append_subset.mp hkept
    refine List.append_subset.mpr ⟨List.Subset.trans hdone hbefore, fun i hi => ?_⟩
    obtain ⟨x, hx, -, rfl⟩ := Role.mem_owners.mp hi
    obtain rfl := List.mem_singleton.mp hx
    exact hself (List.mem_singleton_self _)

theorem all_finds {roots : List (Actuator α)} (h : Role.Settled [] (Actuator.roles roots)) :
    Finds (all setting roots) s ((Actuator.courseAll roots).map fun a => a.job.id) := by
  unfold all
  rw [forM_walk, actuators_eq]
  have hcourse : Finds ((Actuator.courseAll roots).forM fun a =>
      perform setting a.job a.children) s _ := forM_finds h (List.nil_subset _)
  rw [← List.append_nil (List.map _ _)]
  refine hcourse.bind fun _ s₁ _ => .of_quiet (.bind (.look _) fun stopped => ?_)
  split
  · exact .throw (by simp)
  · exact .pure _

theorem conclude_finds {d : Dataflow α} {activity : UInt64} {i : Identifier}
    (htarget : d.target = some i) (hi : i ∈ s.results.keys) (k l : Nat) :
    (on (conclude d activity) s).1 ≠ .error (.missingReference k l) := by
  obtain ⟨o, ho⟩ := Option.ne_none_iff_exists'.mp (mt Keyed.get?_eq_none.mp (not_not_intro hi))
  have hrest : Quiet (do
      Run.record fun t => t.record (d.concluded o)
      finish activity .succeeded
      return d.concluded o) :=
    (Quiet.record _).bind fun _ => (Quiet.finish _ _).bind fun _ => .pure _
  unfold conclude
  rw [htarget, Option.some_or]
  dsimp only
  rw [on_bind_ok (on_get s), ho]
  exact (hrest s).2 k l

end Run

namespace Dataflow

variable {d : Dataflow α}

theorem run_isEmpty (h : d.isEmpty = true) (registry : Registry α) (agent : String)
    (ctx : Context α) (twin : Twin α) (stopped : Bool) (asked : Nat → Bool) :
    (d.run registry agent ctx twin stopped asked).1 = .error .nothingToRun := by
  rw [run_of_on (on_dataflow_isEmpty h registry agent ctx asked _)]

/-! ## Plans that can be run -/

/-- Every reference of a plan refers to an actuator that is no reference itself and is computed
before it. The plan has a target among its actuators, unless it is empty. No run of it misses what a
reference refers to. -/
structure Grounded (d : Dataflow α) : Prop where
  referred : ∀ before a after, d.course = before ++ a :: after → a.job.kind = .reference →
    ∃ b ∈ before, b.job.kind ≠ .reference ∧ a.job.reference = some b.job.id
  target : d.isEmpty = true ∧ d.target = none ∨ ∃ a ∈ d.walk, d.target = some a.job.id
  runs : ∀ registry agent ctx twin stopped asked i k,
    (d.run registry agent ctx twin stopped asked).1 ≠ .error (.missingReference i k)

/-- Every reference of a plan refers to exactly one actuator, which is no reference itself and is
computed before it. The plan has a target among its actuators, unless it is empty. No run of it
misses what a reference refers to. -/
structure Runnable (d : Dataflow α) : Prop where
  referred : ∀ before a after, d.course = before ++ a :: after → a.job.kind = .reference →
    ∃ b ∈ before, b.job.kind ≠ .reference ∧ a.job.reference = some b.job.id ∧
      (d.walk.filter fun c => decide (c.job.id = b.job.id)) = [b]
  target : d.isEmpty = true ∧ d.target = none ∨ ∃ a ∈ d.walk, d.target = some a.job.id
  runs : ∀ registry agent ctx twin stopped asked i k,
    (d.run registry agent ctx twin stopped asked).1 ≠ .error (.missingReference i k)

theorem filter_ids (hnodup : d.ids.Nodup) {b : Actuator α} (hb : b ∈ d.walk) :
    (d.walk.filter fun c => decide (c.job.id = b.job.id)) = [b] := by
  rw [ids] at hnodup
  generalize d.walk = as at hnodup hb
  obtain ⟨before, after, rfl⟩ := List.append_of_mem hb
  rw [List.map_append, List.map_cons, List.nodup_append] at hnodup
  obtain ⟨-, hafter, hbefore⟩ := hnodup
  have hb₁ : ∀ c ∈ before, c.job.id ≠ b.job.id := fun c hc =>
    hbefore _ (List.mem_map_of_mem hc) _ List.mem_cons_self
  have hb₂ : ∀ c ∈ after, c.job.id ≠ b.job.id := fun c hc hid =>
    (List.nodup_cons.mp hafter).1 (List.mem_map.mpr ⟨c, hc, hid⟩)
  rw [List.filter_append, List.filter_cons_of_pos (by simp), List.filter_eq_nil_iff.mpr,
    List.filter_eq_nil_iff.mpr, List.nil_append]
  · simpa using hb₂
  · simpa using hb₁

theorem Coherent.runs (h : d.Coherent) (registry : Registry α) (agent : String) (ctx : Context α)
    (twin : Twin α) (stopped : Bool) (asked : Nat → Bool) (i k : Nat) :
    (d.run registry agent ctx twin stopped asked).1 ≠ .error (.missingReference i k) := by
  cases hsome : d.isEmpty with
  | true => simp [run_isEmpty hsome]
  | false =>
    obtain ⟨setting, t, -, -, -, -, hdataflow⟩ :=
      on_dataflow hsome registry agent ctx twin stopped asked
    rcases hall : Edit.on (Run.all setting d.actuators) { twin := t, stopped } with ⟨r, s'⟩
    have hfinds : Run.Finds (Run.all setting d.actuators) { twin := t, stopped } _ :=
      Run.all_finds h.settled
    rw [run_of_on (hdataflow r s' hall)]
    cases r with
    | error e =>
      refine (Run.quiet_giveUp _ fun i k he => hfinds.1 i k ?_) s' |>.2 i k
      rw [hall, he]
    | ok _ =>
      obtain ⟨target, htarget⟩ := Option.ne_none_iff_exists'.mp (h.aimed hsome)
      have hperm : (d.course.map fun a => a.job.id).Perm d.ids :=
        (Actuator.perm_courseAll d.actuators).map _
      refine Run.conclude_finds htarget ?_ i k
      refine (hfinds.2 _ _ hall) (List.mem_append_right _ ?_)
      exact hperm.mem_iff.mpr (h.targeted target htarget)

theorem Coherent.grounded (h : d.Coherent) : d.Grounded where
  referred before a after hcourse hkind := by
    have hsettled := h.settled
    rw [Actuator.roles, ← course, hcourse, List.map_append, List.map_cons] at hsettled
    obtain ⟨y, hy, hykind, hreference⟩ := hsettled.before hkind
    obtain ⟨b, hb, rfl⟩ := List.mem_map.mp hy
    exact ⟨b, hb, hykind, hreference⟩
  target := by
    cases htarget : d.target with
    | none =>
      refine .inl ⟨?_, rfl⟩
      by_contra hsome
      exact h.aimed (Bool.eq_false_iff.mpr hsome) htarget
    | some i =>
      obtain ⟨a, ha, rfl⟩ := List.mem_map.mp (h.targeted i htarget)
      exact .inr ⟨a, ha, rfl⟩
  runs := h.runs

/-- Where identifiers are distinct, what is referred to is the only one of its own. -/
theorem Grounded.runnable (h : d.Grounded) (hnodup : d.ids.Nodup) : d.Runnable where
  referred before a after hcourse hkind := by
    obtain ⟨b, hb, hbkind, hreference⟩ := h.referred before a after hcourse hkind
    have hwalk : b ∈ d.walk := by
      refine (Actuator.perm_courseAll d.actuators).mem_iff.mp ?_
      rw [← course, hcourse]
      exact List.mem_append_left _ hb
    exact ⟨b, hb, hbkind, hreference, filter_ids hnodup hwalk⟩
  target := h.target
  runs := h.runs

end Dataflow

namespace Planning

open Resolution

variable {allocator : Allocator} {p : Planning α}

/-- All plans that are made of lowered resolutions can be run, and in those to which none of the
lowered ones was added twice every reference refers to exactly one actuator. -/
theorem reached_runnable (h : Reached allocator p) :
    ∀ b ∈ p.plans, b.dataflow.Grounded ∧ (b.parts.Nodup → b.dataflow.Runnable) := by
  intro b hb
  have hgrounded := (h.sound.holds b hb).coherent.grounded
  exact ⟨hgrounded, fun honce => hgrounded.runnable (h.sound.nodup_ids hb honce)⟩

/-- Land needs soil and water, and soil needs water. -/
def threeLayers : Sources Number :=
  knowing [needing "x.land" land [soil, water], needing "x.soil" soil [water],
    needing "x.water" water []]

/-- Land is planned twice; the second plan is added below the water of the first one. -/
theorem reached_runnable_twice :
    ∃ p : Planning Number, Reached {} p ∧ ∃ b ∈ p.plans, b.parts = [0, 1] ∧
      b.dataflow.ids.map Identifier.val = [1, 2, 3, 5, 6, 7, 8, 4] ∧
      (∃ a ∈ b.dataflow.walk, a.job.kind = .reference ∧ a.job.id.val = 8) ∧
      b.dataflow.Runnable := by
  obtain ⟨r, hr, hplans⟩ := exists_of_any (P := fun r : Resolution Number =>
      ((r.lower none {}).1.toOption.any fun d₁ => decide
        (((r.lower none (r.lower none {}).2).1.toOption.any fun d₂ => decide
          (((Dataflow.empty .scalar).add d₁ everywhere).toOption.any fun sum₁ => decide
            ((sum₁.add d₂ { everywhere with current := d₁.ids[2]? }).toOption.any
              fun sum₂ => decide (sum₂.ids.map Identifier.val = [1, 2, 3, 5, 6, 7, 8, 4] ∧
                ∃ a ∈ sum₂.walk, a.job.kind = .reference ∧ a.job.id.val = 8)))) = true)) = true)
    (x := resolve threeLayers ({} : Config).limits land everywhere) (by decide +kernel)
  obtain ⟨d₁, hd₁, hplans⟩ := exists_of_any hplans
  obtain ⟨d₂, hd₂, hplans⟩ := exists_of_any hplans
  obtain ⟨sum₁, hsum₁, hplans⟩ := exists_of_any hplans
  obtain ⟨sum₂, hsum₂, hids, href⟩ := exists_of_any hplans
  have hplanned : Reached {} (⟨_, [d₁, d₂], [⟨.empty .scalar, []⟩, ⟨d₂, [1]⟩, ⟨d₁, [0]⟩]⟩ :
      Planning Number) :=
    ((Relation.ReflTransGen.refl.tail (.lowered hr (Prod.ext hd₁ rfl))).tail
      (.lowered hr (Prod.ext hd₂ rfl))).tail (.empty _ .scalar)
  have hfirst := hplanned.added List.mem_cons_self
    (.tail _ (.tail _ List.mem_cons_self)) hsum₁
  have hreached := hfirst.added List.mem_cons_self
    (.tail _ (.tail _ List.mem_cons_self)) hsum₂
  exact ⟨_, hreached, _, List.mem_cons_self, rfl, hids, href,
    (reached_runnable hreached _ List.mem_cons_self).2 (by simp)⟩

/-- Land is planned once, and the plan is added twice: each reference to the water has two
actuators that it can refer to. -/
theorem reached_ambiguous :
    ∃ p : Planning Number, Reached {} p ∧ ∃ b ∈ p.plans, b.parts = [0, 0] ∧
      b.dataflow.ids.map Identifier.val = [1, 2, 3, 4, 1, 2, 3, 4] ∧
      (∃ a ∈ b.dataflow.walk, a.job.kind = .reference ∧
        a.job.reference.map Identifier.val = some 3) ∧
      (b.dataflow.walk.filter fun a =>
        decide (a.job.kind ≠ .reference ∧ a.job.id.val = 3)).length = 2 ∧
      ¬ b.dataflow.Runnable := by
  obtain ⟨r, hr, hplans⟩ := exists_of_any (P := fun r : Resolution Number =>
      ((r.lower none {}).1.toOption.any fun d => decide
        (((Dataflow.empty .scalar).add d everywhere).toOption.any fun sum₁ => decide
          ((sum₁.add d everywhere).toOption.any fun sum₂ => decide
            (sum₂.ids.map Identifier.val = [1, 2, 3, 4, 1, 2, 3, 4] ∧
              (∃ a ∈ sum₂.walk, a.job.kind = .reference ∧
                a.job.reference.map Identifier.val = some 3) ∧
              (sum₂.walk.filter fun a =>
                decide (a.job.kind ≠ .reference ∧ a.job.id.val = 3)).length = 2)))) = true)
    (x := resolve threeLayers ({} : Config).limits land everywhere) (by decide +kernel)
  obtain ⟨d, hd, hplans⟩ := exists_of_any hplans
  obtain ⟨sum₁, hsum₁, hplans⟩ := exists_of_any hplans
  obtain ⟨sum₂, hsum₂, hids, hreference, htwo⟩ := exists_of_any hplans
  have hplanned : Reached {} (⟨_, [d], [⟨.empty .scalar, []⟩, ⟨d, [0]⟩]⟩ : Planning Number) :=
    (Relation.ReflTransGen.refl.tail (.lowered hr (Prod.ext hd rfl))).tail (.empty _ .scalar)
  have hfirst := hplanned.added List.mem_cons_self (.tail _ List.mem_cons_self) hsum₁
  have hreached := hfirst.added List.mem_cons_self
    (.tail _ (.tail _ List.mem_cons_self)) hsum₂
  refine ⟨_, hreached, _, List.mem_cons_self, rfl, hids, hreference, htwo, ?_⟩
  intro hrunnable
  -- the reference would have a single actuator to refer to, but there are two
  obtain ⟨a, ha, hkind, hthree⟩ := hreference
  obtain ⟨before, after, hcourse⟩ := List.append_of_mem
    ((Actuator.perm_courseAll sum₂.actuators).mem_iff.mpr ha)
  obtain ⟨c, -, -, hrefers, hsingle⟩ := hrunnable.referred before a after hcourse hkind
  rw [hrefers, Option.map_some, Option.some.injEq] at hthree
  have hfew := List.countP_mono_left (l := sum₂.walk)
    (p := fun a => decide (a.job.kind ≠ .reference ∧ a.job.id.val = 3))
    (q := fun a => decide (a.job.id = c.job.id)) fun a _ h => by
      rw [decide_eq_true_eq] at h ⊢
      exact Identifier.ext (h.2.trans hthree.symm)
  rw [List.countP_eq_length_filter, List.countP_eq_length_filter, htwo, hsingle] at hfew
  exact absurd hfew (by simp)

end Planning

end Obsplan
