import Obsplan.Proofs.Resolution.Reuse

/-!
# Refused candidates

A search keeps what it adds behind what was there: new nodes, and kept branches that refer to new
nodes under keys that were not in use. So a rollback to the number of nodes before a candidate was
tried leads back to the same nodes and the same kept branches. Main statement: this is so in every
state that a search reaches, and a branch that finds nothing leaves the state as it was.
-/

namespace Obsplan.Search

variable {α : Type} [Coordinate α] {s s₁ s' : SearchState α} {path : List String}

/-! ## What a search adds -/

/-- The key is not that of a branch on the path. -/
def OffPath (path : List String) (key : String) : Prop :=
  ∀ (o : Observable) (scale : Scale α) (cs : Constraints), pathKey o scale ∈ path →
    branchKey o scale cs ≠ key

/-- Notifications and the clock apart, nothing has changed. -/
structure Untouched (s s' : SearchState α) : Prop where
  nodes : s'.nodes = s.nodes
  resolved : s'.resolved = s.resolved
  path : s'.path = s.path

/-- All that was added is behind what was there, and every new kept branch refers to a new node. -/
structure Adds (s s' : SearchState α) : Prop where
  nodes : s.nodes <+: s'.nodes
  path : s'.path = s.path
  resolved : ∃ more, s'.resolved.entries = s.resolved.entries ++ more ∧
    ∀ e ∈ more, OffPath (α := α) s.path e.1 ∧ ∃ i ∈ e.2.nodes, s.nodes.length ≤ i

namespace Untouched

theorem refl (s : SearchState α) : Untouched s s := ⟨rfl, rfl, rfl⟩

theorem trans (h : Untouched s s₁) (h' : Untouched s₁ s') : Untouched s s' :=
  ⟨h'.nodes.trans h.nodes, h'.resolved.trans h.resolved, h'.path.trans h.path⟩

theorem look (limits : Limits α) (s : SearchState α) : Untouched s (s.look limits).2 :=
  ⟨s.nodes_look limits, s.resolved_look limits, s.path_look limits⟩

theorem notify (s : SearchState α) (n : Notification) : Untouched s (s.notify n) := ⟨rfl, rfl, rfl⟩

end Untouched

namespace Adds

theorem of_untouched (h : Untouched s s') : Adds s s' where
  nodes := by rw [h.nodes]
  path := h.path
  resolved := ⟨[], by rw [h.resolved, List.append_nil], by simp⟩

theorem refl (s : SearchState α) : Adds s s := of_untouched (.refl s)

theorem trans (h : Adds s s₁) (h' : Adds s₁ s') : Adds s s' where
  nodes := h.nodes.trans h'.nodes
  path := h'.path.trans h.path
  resolved := by
    obtain ⟨more, hmore, hnew⟩ := h.resolved
    obtain ⟨more', hmore', hnew'⟩ := h'.resolved
    refine ⟨more ++ more', by rw [hmore', hmore, List.append_assoc], fun e he => ?_⟩
    rcases List.mem_append.mp he with he | he
    · exact hnew e he
    · obtain ⟨hoff, i, hi, hle⟩ := hnew' e he
      exact ⟨h.path ▸ hoff, i, hi, Nat.le_trans h.nodes.length_le hle⟩

theorem push (s : SearchState α) (o : Observable) (scale : Scale α) (means : Means α)
    (coverage : Coverage α) (links : List Link) :
    Adds s (s.push o scale means coverage links).2 where
  nodes := List.prefix_append _ _
  path := rfl
  resolved := ⟨[], by simp, by simp⟩

/-- A rollback drops just what was added. -/
theorem rollback (h : Adds s s₁) (hs : Sound s) (hs₁ : Sound s₁) :
    Untouched s (s₁.rollback s.nodes.length) where
  nodes := by rw [SearchState.nodes_rollback, ← List.prefix_iff_eq_take.mp h.nodes]
  path := (s₁.path_rollback _).trans h.path
  resolved := by
    obtain ⟨more, hmore, hnew⟩ := h.resolved
    unfold SearchState.rollback
    split
    · have hold : ∀ e ∈ s.resolved.entries,
          (e.2.nodes.all fun n => decide (n < s.nodes.length)) = true := fun e he =>
        List.all_eq_true.mpr fun i hi => decide_eq_true (hs.kept e he i hi)
      have hdropped : ∀ e ∈ more,
          ¬ (e.2.nodes.all fun n => decide (n < s.nodes.length)) = true := by
        intro e he hall
        obtain ⟨-, i, hi, hle⟩ := hnew e he
        have hlt := of_decide_eq_true (List.all_eq_true.mp hall i hi)
        omega
      have hentries : (s₁.resolved.keep fun _ b => b.nodes.all fun n =>
          decide (n < s.nodes.length)).entries = s.resolved.entries := by
        rw [Keyed.keep, hmore, List.filter_append, List.filter_eq_self.mpr hold,
          List.filter_eq_nil_iff.mpr hdropped, List.append_nil]
      exact congrArg Keyed.mk hentries
    · -- no node was added, so no branch was kept that refers to one
      rename_i hlength
      have hnone : more = [] := by
        refine List.eq_nil_iff_forall_not_mem.mpr fun e he => ?_
        obtain ⟨-, i, hi, hle⟩ := hnew e he
        have hlt := hs₁.kept e (hmore ▸ List.mem_append_right _ he) i hi
        omega
      rw [hnone, List.append_nil] at hmore
      exact congrArg Keyed.mk hmore

end Adds

/-! ## What the parts of the search add -/

/-- A searcher that adds behind what was there, and nothing at all when it finds nothing. -/
structure Tidy (deeper : Searcher α) : Prop where
  extending : Extending deeper
  adds : ∀ {o : Observable} {ctx : Context α} {s s' : SearchState α} {b : Branch α}, Sound s →
    deeper o ctx s = .ok (b, s') → Adds s s'
  untouched : ∀ {o : Observable} {ctx : Context α} {s s' : SearchState α} {b : Branch α}, Sound s →
    deeper o ctx s = .ok (b, s') → b.nodes = [] → Untouched s s'

section parts

variable {sources : Sources α} {limits : Limits α} {deeper : Searcher α} {m : Model α}
  {o : Observable} {ctx : Context α} {c : Candidate α}

theorem linkStep_adds (hdeep : Tidy deeper) (hs : Sound s) {d : Dependency α}
    {coverage : Coverage α} {res : Option (Link × Coverage α)}
    (h : LinkStep deeper m ctx d coverage s res s') : Adds s s' := by
  cases h with
  | deferred => exact .push ..
  | found _ hb _ => exact hdeep.adds hs hb
  | missing _ hb _ _ =>
    exact ((hdeep.adds hs hb).trans (.of_untouched (.notify ..))).trans (.push ..)
  | refused _ hb _ => exact (hdeep.adds hs hb).trans (.of_untouched (.notify ..))

theorem linkRun_adds (hdeep : Tidy deeper) (hs : Sound s) {ds : List (Dependency α)}
    {coverage : Coverage α} {res : Option (List Link × Coverage α)}
    (h : LinkRun deeper m o ctx ds coverage s res s') : Adds s s' := by
  induction h with
  | nil => exact .refl _
  | cons hstep _ ih =>
    exact (linkStep_adds hdeep hs hstep).trans
      (ih (linkStep_extends hdeep.extending hs hstep).sound)
  | refused hstep => exact linkStep_adds hdeep hs hstep
  | refusedLater hstep _ ih =>
    exact (linkStep_adds hdeep hs hstep).trans
      (ih (linkStep_extends hdeep.extending hs hstep).sound)

theorem trial_adds (hdeep : Tidy deeper) (hs : Sound s) {res : Option (Nat × Coverage α)}
    (h : Trial deeper o ctx c s res s') : Adds s s' := by
  cases h with
  | refused hrun => exact linkRun_adds hdeep hs hrun
  | uncovered hrun => exact (linkRun_adds hdeep hs hrun).trans (.of_untouched (.notify ..))
  | made hrun _ => exact (linkRun_adds hdeep hs hrun).trans (.push ..)

/-- Dropping a candidate leads back to the state before it was tried. -/
theorem trial_dropped (hdeep : Tidy deeper) (hs : Sound s) {res : Option (Nat × Coverage α)}
    (h : Trial deeper o ctx c s res s') : Untouched s (s'.rollback s.nodes.length) :=
  (trial_adds hdeep hs h).rollback hs (trial_extends hdeep.extending hs h).sound

/-- The node of a candidate is a new one. -/
theorem trial_made (hdeep : Tidy deeper) (hs : Sound s) {id : Nat} {coverage : Coverage α}
    (h : Trial deeper o ctx c s (some (id, coverage)) s') : s.nodes.length ≤ id := by
  cases h with
  | made hrun _ => exact (linkRun_adds hdeep hs hrun).nodes.length_le

/-- What trying candidates leaves behind: the nodes accepted in addition are new ones, and without
any nothing has changed. -/
structure Gains (s : SearchState α) (accepted : List Nat) (s' : SearchState α) (ids : List Nat) :
    Prop where
  adds : Adds s s'
  more : ∃ more, ids = accepted ++ more ∧ (∀ i ∈ more, s.nodes.length ≤ i) ∧
    (more = [] → Untouched s s')

theorem Gains.of_untouched (h : Untouched s s') (accepted : List Nat) :
    Gains s accepted s' accepted :=
  ⟨.of_untouched h, [], by simp, by simp, fun _ => h⟩

theorem Gains.after {accepted ids : List Nat} (h : Untouched s s₁) (hg : Gains s₁ accepted s' ids) :
    Gains s accepted s' ids := by
  obtain ⟨hadds, more, hids, hnew, hnone⟩ := hg
  exact ⟨(Adds.of_untouched h).trans hadds, more, hids, by rwa [h.nodes] at hnew,
    fun hmore => h.trans (hnone hmore)⟩

theorem Gains.before {accepted ids : List Nat} (hg : Gains s accepted s₁ ids)
    (h : Untouched s₁ s') : Gains s accepted s' ids := by
  obtain ⟨hadds, more, hids, hnew, hnone⟩ := hg
  exact ⟨hadds.trans (.of_untouched h), more, hids, hnew, fun hmore => (hnone hmore).trans h⟩

theorem tryRun_gains (hdeep : Tidy deeper) (hs : Sound s) {cs : List (Candidate α)}
    {accepted : List Nat} {covered : Coverage α} {res : List Nat × Coverage α}
    (h : TryRun limits deeper o ctx cs accepted covered s res s') : Gains s accepted s' res.1 := by
  induction h with
  | nil => exact .of_untouched (.refl _) _
  | complete => exact .of_untouched (.refl _) _
  | late => exact .of_untouched (.look ..) _
  | skipped _ _ _ ih => exact .after (.look ..) (ih hs.look.sound)
  | @dropped _ _ _ _ s s₁ _ _ _ _ _ htrial _ _ ih =>
    -- the look at the clock before the trial made no node, so both checkpoints are the same
    have hback : Untouched s (s₁.rollback s.nodes.length) := by
      have h := trial_dropped hdeep hs.look.sound htrial
      rw [SearchState.nodes_look] at h
      exact (Untouched.look limits s).trans h
    have he := (hs.look.trans (trial_extends hdeep.extending hs.look.sound htrial)).rollback
    exact .after hback (ih he.sound)
  | @accepted _ _ _ _ _ id s s₁ _ _ _ _ htrial _ _ ih =>
    have hlook : Untouched s (s.look limits).2 := .look limits s
    have hadds := (Adds.of_untouched hlook).trans (trial_adds hdeep hs.look.sound htrial)
    have hid : s.nodes.length ≤ id := by
      simpa using trial_made hdeep hs.look.sound htrial
    have he := trial_extends hdeep.extending hs.look.sound htrial
    obtain ⟨hadds', more, hids, hnew, -⟩ := ih he.sound
    refine ⟨hadds.trans hadds', id :: more, by simp [hids], fun i hi => ?_, by simp⟩
    rcases List.mem_cons.mp hi with rfl | hi
    · exact hid
    · exact Nat.le_trans hadds.nodes.length_le (hnew i hi)

/-! ## Branches -/

theorem Untouched.conclude (limits : Limits α) (o : Observable) (accepted : List Nat)
    (covered : Coverage α) (s : SearchState α) :
    Untouched s (conclude limits o accepted covered s).2 :=
  ⟨nodes_conclude .., resolved_conclude .., path_conclude ..⟩

/-- Only a branch with nodes counts as resolved. -/
theorem nodes_of_resolved {accepted : List Nat} {covered : Coverage α}
    (h : (conclude limits o accepted covered s).1.outcome = .resolved) : accepted ≠ [] := by
  rintro rfl
  simp only [conclude, List.isEmpty_nil, if_true] at h
  split at h <;> cases h

section reuses

variable [LegibleCoordinate α]

/-- What is kept under an observable and a scale is off every path without them. -/
theorem OffPath.branchKey (h : pathKey o ctx.scale ∉ path) :
    OffPath (α := α) path (branchKey o ctx.scale ctx.constraints) := by
  intro o' scale' cs' hmem heq
  obtain ⟨hkey, hscale, -⟩ := branchKey_injective heq
  rw [pathKey, hkey, hscale] at hmem
  exact h hmem

/-- A branch that is searched is kept behind the others, under a key that was not in use. -/
theorem Gains.left {b : Branch α} {found : Candidates α}
    (h : Gains (entered limits o ctx found s) [] s₁ b.nodes) (hpath : pathKey o ctx.scale ∉ s.path)
    (hnew : branchKey o ctx.scale ctx.constraints ∉ s.resolved.keys)
    (hwhole : b.outcome = .resolved → b.nodes ≠ []) :
    Adds s (left o ctx b s₁) ∧ (b.nodes = [] → Untouched s (left o ctx b s₁)) := by
  obtain ⟨hadds, more, hnodes, hids, hnone⟩ := h
  rw [List.nil_append] at hnodes
  have hback : s₁.path.erase (pathKey o ctx.scale) = s.path := by
    simp [hadds.path, entered]
  have hentered : (entered limits o ctx found s).nodes = s.nodes := by simp [entered]
  have hresolved : (entered limits o ctx found s).resolved = s.resolved := by simp [entered]
  constructor
  · obtain ⟨kept, hkept, hoff⟩ := hadds.resolved
    rw [hresolved] at hkept
    -- while the branch was searched its observable was on the path, so nothing is kept under it
    have hout : ∀ e ∈ kept, e.1 ≠ branchKey o ctx.scale ctx.constraints := fun e he heq =>
      (hoff e he).1 o ctx.scale ctx.constraints (by simp [entered]) heq.symm
    have hbelow : ∀ e ∈ kept,
        OffPath (α := α) s.path e.1 ∧ ∃ i ∈ e.2.nodes, s.nodes.length ≤ i := by
      intro e he
      obtain ⟨hoff, i, hi, hle⟩ := hoff e he
      rw [hentered] at hle
      exact ⟨fun o' scale' cs' hmem => hoff o' scale' cs' (by simp [entered, hmem]), i, hi, hle⟩
    have hunused : branchKey o ctx.scale ctx.constraints ∉ s₁.resolved.keys := by
      simp only [Keyed.keys, hkept, List.map_append, List.mem_append, not_or]
      refine ⟨hnew, fun hmem => ?_⟩
      obtain ⟨e, he, heq⟩ := List.mem_map.mp hmem
      exact hout e he heq
    refine ⟨?_, hback, ?_⟩
    · rw [← hentered]
      exact hadds.nodes
    · by_cases ho : b.outcome = .resolved
      · refine ⟨kept ++ [(branchKey o ctx.scale ctx.constraints, b)], ?_, ?_⟩
        · simp only [Search.left, ho, if_true]
          rw [Keyed.entries_insert_of_notMem _ hunused, hkept, List.append_assoc]
        · intro e he
          rcases List.mem_append.mp he with he | he
          · exact hbelow e he
          · obtain rfl := List.mem_singleton.mp he
            obtain ⟨i, hi⟩ := List.exists_mem_of_ne_nil _ (hwhole ho)
            exact ⟨.branchKey hpath, i, hi, hentered ▸ hids i (hnodes ▸ hi)⟩
      · exact ⟨kept, by simp only [Search.left, ho, if_false, hkept], hbelow⟩
  · intro hb
    have huntouched := hnone (hnodes.symm.trans hb)
    refine ⟨huntouched.nodes.trans hentered, ?_, hback⟩
    have ho : ¬ b.outcome = .resolved := fun ho => hwhole ho hb
    simp only [Search.left, ho, if_false]
    exact huntouched.resolved.trans hresolved

variable (hreuses : limits.reuses = true)

include hreuses

omit [LegibleCoordinate α] in
/-- Where nothing is kept for an observable in a context, its key is not in use. -/
theorem notMem_of_kept? (h : kept? limits o ctx s = none) :
    branchKey o ctx.scale ctx.constraints ∉ s.resolved.keys := by
  rw [kept?, if_pos hreuses] at h
  exact Keyed.get?_eq_none.mp h

theorem branch_leaves {remaining : Nat} {b : Branch α}
    (hdeep : ∀ n < remaining, Tidy (branch sources limits n)) (hs : Sound s)
    (h : branch sources limits remaining o ctx s = .ok (b, s')) :
    Adds s s' ∧ (b.nodes = [] → Untouched s s') := by
  have hall : ∀ {s'}, Untouched s s' → Adds s s' ∧ (b.nodes = [] → Untouched s s') :=
    fun h => ⟨.of_untouched h, fun _ => h⟩
  cases branchStep h with
  | cycle => exact hall (.notify ..)
  | tooDeep => exact hall (.notify ..)
  | kept => exact hall (.refl s)
  | late => exact hall (.look ..)
  | @searched n _ _ _ s₁ found accepted covered hpath hlook hlookup hrun =>
    cases hk : kept? limits o ctx s with
    | some b₀ =>
      obtain ⟨-, hsame⟩ := Prod.mk.inj (Except.ok.inj ((branch_kept hpath hk).symm.trans h))
      rw [← hsame]
      exact hall (.refl s)
    | none =>
      have hgains : Gains (entered limits o ctx found s) []
          (conclude limits o accepted covered s₁).2
          (conclude limits o accepted covered s₁).1.nodes := by
        rw [nodes_conclude_fst]
        exact (tryRun_gains (hdeep n (by omega)) (entered_sound hs) hrun).before (.conclude ..)
      refine hgains.left hpath (notMem_of_kept? hreuses hk) fun ho => ?_
      rw [nodes_conclude_fst]
      exact nodes_of_resolved ho

theorem branch_tidy (sources : Sources α) (remaining : Nat) :
    Tidy (branch sources limits remaining) := by
  induction remaining using Nat.strongRecOn with
  | ind remaining ih =>
    exact ⟨branch_extends sources limits remaining, fun hs h => (branch_leaves hreuses ih hs h).1,
      fun hs h => (branch_leaves hreuses ih hs h).2⟩

end reuses

end parts

/-! ## The states that a run reaches -/

section runs

variable (sources : Sources α) (limits : Limits α) (start : Observable) (root : Context α)

mutual

/-- On the way of a run from the start, a branch is searched from this state that may reach so many
levels down. -/
inductive Begins : Nat → Observable → Context α → SearchState α → Prop where
  | start : Begins (limits.maxDepth + 1) start root {}
  /-- The dependencies of a candidate before this one have been linked. -/
  | dependency {n : Nat} {o : Observable} {ctx : Context α} {c : Candidate α} {s s₁ : SearchState α}
      {before after : List (Dependency α)} {d : Dependency α} {links : List Link}
      {coverage : Coverage α} : Tries n o ctx c s →
      c.model.dependencies = before ++ d :: after → d.deferred = false →
      linkAll (branch sources limits n) c.model o ctx before [] c.coverage s =
        .ok (some (links, coverage), s₁) →
      Begins n d.observable (inner c.model ctx d) s₁

/-- On the way of a run from the start, a candidate is tried from this state whose dependencies may
reach so many levels down. -/
inductive Tries : Nat → Observable → Context α → Candidate α → SearchState α → Prop where
  /-- The candidates before this one have been tried, and neither the coverage nor the clock ends
  the branch. -/
  | candidate {n : Nat} {o : Observable} {ctx : Context α} {s s₁ : SearchState α}
      {found : Candidates α} {before after : List (Candidate α)} {c : Candidate α}
      {accepted : List Nat} {covered : Coverage α} : Begins (n + 1) o ctx s →
      pathKey o ctx.scale ∉ s.path → kept? limits o ctx s = none → (s.look limits).1 = false →
      Candidate.lookup sources o ctx (.remainder ctx.scale (.empty ctx.scale)) = .ok found →
      found.list = before ++ c :: after →
      tryAll limits (branch sources limits n) o ctx before [] (.empty ctx.scale)
        (entered limits o ctx found s) = .ok ((accepted, covered), s₁) →
      GoesOn limits covered s₁ → ¬ covered.gain c.coverage < limits.minContribution →
      Tries n o ctx c (s₁.look limits).2

end

end runs

variable {sources : Sources α} {limits : Limits α} {start : Observable} {root : Context α}

mutual

theorem Begins.sound {n : Nat} {o : Observable} {ctx : Context α} {s : SearchState α}
    (h : Begins sources limits start root n o ctx s) : Sound s := by
  match h with
  | .start => exact .start
  | .dependency htries _ _ hlink =>
    have hext : Extending (branch sources limits n) := branch_extends sources limits n
    exact (linkAll_extends hext htries.sound hlink).sound

theorem Tries.sound {n : Nat} {o : Observable} {ctx : Context α} {c : Candidate α}
    {s : SearchState α} (h : Tries sources limits start root n o ctx c s) : Sound s := by
  match h with
  | .candidate hbegins _ _ _ _ _ htried _ _ =>
    have hext : Extending (branch sources limits n) := branch_extends sources limits n
    have he := tryRun_extends hext (entered_sound hbegins.sound) (by simp) (tryRun htried)
    exact he.sound.look.sound

end

/-- Where branches are used again, a candidate that is refused, or whose node adds too little,
leaves no trace: after the rollback the nodes, the kept branches and the path are those from which
it was tried. Neither does a branch that finds nothing. -/
theorem branch_traceless [LegibleCoordinate α] (hreuses : limits.reuses = true) (n : Nat) :
    (∀ {o : Observable} {ctx : Context α} {c : Candidate α} {s s' : SearchState α}
        {tried : Option (Nat × Coverage α)}, Tries sources limits start root n o ctx c s →
      tryCandidate (branch sources limits n) o ctx c s = .ok (tried, s') →
        Untouched s (s'.rollback s.nodes.length)) ∧
      ∀ {o : Observable} {ctx : Context α} {s s' : SearchState α} {b : Branch α},
        Begins sources limits start root n o ctx s →
        branch sources limits n o ctx s = .ok (b, s') → b.nodes = [] → Untouched s s' := by
  have htidy := branch_tidy hreuses sources n
  exact ⟨fun htries h => trial_dropped htidy htries.sound (trial h),
    fun hbegins h hnone => htidy.untouched hbegins.sound h hnone⟩

/-! ## A circle that is refused -/

instance (limits : Limits α) (covered : Coverage α) (s : SearchState α) :
    Decidable (GoesOn limits covered s) :=
  inferInstanceAs (Decidable (_ ∧ _))

theorem eq_ok_of_mem {ε β : Type} {x : Except ε β} {r : β} (h : r ∈ x.toOption) : x = .ok r := by
  cases x with
  | error e => cases h
  | ok r' => cases h; rfl

section first

variable (sources : Sources α) (limits : Limits α) (n : Nat) (o : Observable) (ctx : Context α)
  (s : SearchState α)

/-- The candidate that is tried first for an observable, and the state from which it is. -/
def firstTrial? : Option (Candidate α × SearchState α) := do
  guard (pathKey o ctx.scale ∉ s.path ∧ (kept? limits o ctx s).isNone ∧ (s.look limits).1 = false)
  let found ← (Candidate.lookup sources o ctx (.remainder ctx.scale (.empty ctx.scale))).toOption
  let c ← found.list.head?
  guard (GoesOn limits (.empty ctx.scale) (entered limits o ctx found s) ∧
    ¬ (Coverage.empty ctx.scale).gain c.coverage < limits.minContribution)
  return (c, ((entered limits o ctx found s).look limits).2)

/-- The dependency of a candidate that is searched after `i` others, and the state from which it
is. -/
def nextSearch? (c : Candidate α) (i : Nat) : Option (Dependency α × SearchState α) := do
  let d ← c.model.dependencies[i]?
  let linked ← (linkAll (branch sources limits n) c.model o ctx (c.model.dependencies.take i) []
    c.coverage s).toOption
  guard (d.deferred = false ∧ linked.1.isSome)
  return (d, linked.2)

variable {sources limits n o ctx s}

theorem Begins.tries_first {t : Candidate α × SearchState α}
    (h : Begins sources limits start root (n + 1) o ctx s)
    (ht : t ∈ firstTrial? sources limits o ctx s) :
    Tries sources limits start root n o ctx t.1 t.2 := by
  simp only [firstTrial?, Option.mem_def, Option.bind_eq_bind, Option.bind_eq_some_iff,
    Option.guard_eq_some', Option.pure_def, Option.some.injEq, exists_const] at ht
  obtain ⟨⟨hpath, hkept, hlook⟩, found, hfound, c, hc, ⟨hgo, hgain⟩, rfl⟩ := ht
  obtain ⟨after, hlist⟩ := List.head?_eq_some_iff.mp hc
  have hfirst : found.list = [] ++ c :: after := hlist
  exact .candidate h hpath (Option.isNone_iff_eq_none.mp hkept) hlook (eq_ok_of_mem hfound) hfirst
    rfl hgo hgain

theorem Tries.begins_next {c : Candidate α} {i : Nat} {t : Dependency α × SearchState α}
    (h : Tries sources limits start root n o ctx c s)
    (ht : t ∈ nextSearch? sources limits n o ctx s c i) :
    Begins sources limits start root n t.1.observable (inner c.model ctx t.1) t.2 := by
  simp only [nextSearch?, Option.mem_def, Option.bind_eq_bind, Option.bind_eq_some_iff,
    Option.guard_eq_some', Option.pure_def, Option.some.injEq, exists_const] at ht
  obtain ⟨d, hd, ⟨res, s₁⟩, hlinked, ⟨hsearched, hsome⟩, rfl⟩ := ht
  obtain ⟨hi, rfl⟩ := List.getElem?_eq_some_iff.mp hd
  obtain ⟨res, rfl⟩ := Option.isSome_iff_exists.mp hsome
  have hall : c.model.dependencies = c.model.dependencies.take i ++
      c.model.dependencies[i] :: c.model.dependencies.drop (i + 1) := by
    rw [List.getElem_cons_drop, List.take_append_drop]
  exact .dependency h hall hsearched (eq_ok_of_mem hlinked)

end first

open Resolution

/-- Soil and land need each other. -/
def circling : Sources Number :=
  knowing [needing "x.land" land [water, soil], needing "x.soil" soil [water, rock, land],
    needing "x.rock" rock [], needing "x.water" water []]

/-- While soil is tried, water is taken over and rock is found; then land leads back to the path,
and only what was known of water stays. -/
theorem branch_traceless_circling :
    ∃ o ctx s, Begins circling ({} : Config).limits land everywhere 32 o ctx s ∧
      o.urn = "t:Soil" ∧ s.nodes.length = 1 ∧ s.resolved.size = 1 ∧
      (∃ c s₁ s', Tries circling ({} : Config).limits land everywhere 31 o ctx c s₁ ∧
        tryCandidate (branch circling ({} : Config).limits 31) o ctx c s₁ = .ok (none, s') ∧
        s'.nodes.length = 2 ∧ s'.resolved.size = 2 ∧
        Untouched s₁ (s'.rollback s₁.nodes.length)) ∧
      ∃ b s', branch circling ({} : Config).limits 32 o ctx s = .ok (b, s') ∧
        b.nodes = [] ∧ Untouched s s' := by
  let limits := ({} : Config).limits
  obtain ⟨t, ht, ⟨d, s⟩, hd, hsoil, hnodes, hkept, t', ht', ⟨tried, s'⟩, htried, hrefused, hnodes',
      hkept', ⟨b, s''⟩, hb, hnone⟩ :
      ∃ t ∈ firstTrial? circling limits land everywhere {},
      ∃ d ∈ nextSearch? circling limits 32 land everywhere t.2 t.1 1,
      d.1.observable.urn = "t:Soil" ∧ d.2.nodes.length = 1 ∧ d.2.resolved.size = 1 ∧
      ∃ t' ∈ firstTrial? circling limits d.1.observable (inner t.1.model everywhere d.1) d.2,
      ∃ tried ∈ (tryCandidate (branch circling limits 31) d.1.observable
        (inner t.1.model everywhere d.1) t'.1 t'.2).toOption,
      tried.1.isNone = true ∧ tried.2.nodes.length = 2 ∧ tried.2.resolved.size = 2 ∧
      ∃ b ∈ (branch circling limits 32 d.1.observable (inner t.1.model everywhere d.1)
        d.2).toOption, b.1.nodes = [] := by decide +kernel
  have hland : Begins circling limits land everywhere 33 land everywhere {} := .start
  have hbegins := (hland.tries_first ht).begins_next hd
  have htries := hbegins.tries_first ht'
  obtain rfl := Option.isNone_iff_eq_none.mp hrefused
  have htried := eq_ok_of_mem htried
  have hb := eq_ok_of_mem hb
  exact ⟨_, _, _, hbegins, hsoil, hnodes, hkept,
    ⟨_, _, _, htries, htried, hnodes', hkept', (branch_traceless rfl 31).1 htries htried⟩,
    _, _, hb, hnone, (branch_traceless rfl 32).2 hbegins hb hnone⟩

end Obsplan.Search
