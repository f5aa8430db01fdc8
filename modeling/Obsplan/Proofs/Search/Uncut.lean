import Obsplan.Proofs.Search.Ideal

/-!
# Searches that are not cut off

A search adds to its notifications, and says so when it cuts off a branch because of the path that
leads to it. A search without a deadline that keeps nothing and cuts off nothing finds what the ideal
search finds.
-/

namespace Obsplan.Search

variable {α : Type} [Coordinate α] {limits : Limits α} {s s₁ s' : SearchState α}

/-! ## Notifications and the clock -/

/-- A part of the search only adds notifications, and the time does not run out. -/
structure Advances (s s' : SearchState α) : Prop where
  notifications : s.notifications <+: s'.notifications
  timedOut : s'.timedOut = s.timedOut

namespace Advances

theorem refl (s : SearchState α) : Advances s s := ⟨List.prefix_rfl, rfl⟩

theorem trans (h : Advances s s₁) (h₁ : Advances s₁ s') : Advances s s' :=
  ⟨h.notifications.trans h₁.notifications, h₁.timedOut.trans h.timedOut⟩

theorem notify (h : Advances s s₁) (n : Notification) : Advances s (s₁.notify n) :=
  ⟨h.notifications.trans (List.prefix_append _ _), h.timedOut⟩

theorem rollback (h : Advances s s₁) (checkpoint : Nat) : Advances s (s₁.rollback checkpoint) :=
  ⟨by simpa using h.notifications, by simpa using h.timedOut⟩

theorem look (hclock : ∀ n, limits.isLate n = false) (s : SearchState α) :
    Advances s (s.look limits).2 := by
  refine ⟨s.notifications_look limits, ?_⟩
  simp only [SearchState.look, hclock]
  split <;> rfl

end Advances

theorem look_onTime (hclock : ∀ n, limits.isLate n = false) (hs : s.timedOut = false) :
    (s.look limits).1 = false := by
  simp [SearchState.look, hclock, hs]

/-- A searcher that only adds notifications. -/
def Advancing (deeper : Searcher α) : Prop :=
  ∀ {o : Observable} {ctx : Context α} {s s' : SearchState α} {b : Branch α},
    deeper o ctx s = .ok (b, s') → Advances s s'

variable {deeper : Searcher α} {m : Model α} {o : Observable} {ctx : Context α} {c : Candidate α}

theorem linkStep_advances (hdeep : Advancing deeper) {d : Dependency α} {coverage : Coverage α}
    {res : Option (Link × Coverage α)} (h : LinkStep deeper m ctx d coverage s res s') :
    Advances s s' := by
  cases h with
  | deferred => exact ⟨List.prefix_rfl, rfl⟩
  | found _ hb _ => exact hdeep hb
  | missing _ hb _ _ => exact ((hdeep hb).notify _).trans ⟨List.prefix_rfl, rfl⟩
  | refused _ hb => exact (hdeep hb).notify _

theorem linkRun_advances (hdeep : Advancing deeper) {ds : List (Dependency α)}
    {coverage : Coverage α} {res : Option (List Link × Coverage α)}
    (h : LinkRun deeper m o ctx ds coverage s res s') : Advances s s' := by
  induction h with
  | nil => exact .refl _
  | cons hstep _ ih => exact (linkStep_advances hdeep hstep).trans ih
  | refused hstep => exact linkStep_advances hdeep hstep
  | refusedLater hstep _ ih => exact (linkStep_advances hdeep hstep).trans ih

theorem trial_advances (hdeep : Advancing deeper) {res : Option (Nat × Coverage α)}
    (h : Trial deeper o ctx c s res s') : Advances s s' := by
  cases h with
  | refused hrun => exact linkRun_advances hdeep hrun
  | uncovered hrun => exact (linkRun_advances hdeep hrun).notify _
  | made hrun _ => exact (linkRun_advances hdeep hrun).trans ⟨List.prefix_rfl, rfl⟩

variable (hclock : ∀ n, limits.isLate n = false)

include hclock in
theorem tryRun_advances (hdeep : Advancing deeper) {cs : List (Candidate α)} {accepted : List Nat}
    {covered : Coverage α} {res : List Nat × Coverage α}
    (h : TryRun limits deeper o ctx cs accepted covered s res s') : Advances s s' := by
  induction h with
  | nil => exact .refl _
  | complete => exact .refl _
  | late => exact .look hclock _
  | skipped _ _ _ ih => exact (Advances.look hclock _).trans ih
  | dropped _ _ htrial _ _ ih =>
    exact (((Advances.look hclock _).trans (trial_advances hdeep htrial)).rollback _).trans ih
  | accepted _ _ htrial _ _ ih =>
    exact ((Advances.look hclock _).trans (trial_advances hdeep htrial)).trans ih

include hclock in
theorem branchStep_advances {sources : Sources α} {remaining : Nat} {b : Branch α}
    (hdeep : ∀ n < remaining, Advancing (branch sources limits n))
    (h : BranchStep sources limits remaining o ctx s b s') : Advances s s' := by
  cases h with
  | cycle => exact (Advances.refl s).notify _
  | tooDeep => exact (Advances.refl s).notify _
  | kept => exact .refl s
  | late => exact .look hclock s
  | @searched remaining _ _ s s₁ found accepted covered _ _ _ hrun =>
    have hlook : Advances s (s.look limits).2 := .look hclock s
    have hentered : Advances s (entered limits o ctx found s) :=
      ⟨hlook.notifications.trans (List.prefix_append _ _), hlook.timedOut⟩
    have hrun := tryRun_advances hclock (hdeep remaining (Nat.lt_succ_self _)) hrun
    refine (hentered.trans hrun).trans ⟨?_, ?_⟩
    · exact notifications_conclude limits o accepted covered s₁
    · exact timedOut_conclude limits o accepted covered s₁

include hclock in
theorem branch_advances (sources : Sources α) (remaining : Nat) :
    Advancing (branch sources limits remaining) := by
  induction remaining using Nat.strongRecOn with
  | ind remaining ih => exact fun h => branchStep_advances hclock ih (branchStep h)

/-! ## Findings -/

/-- What a branch found, as compositions. -/
def finding (nodes : List (Node α)) (b : Branch α) : Finding α :=
  ⟨b.outcome, composed nodes b.nodes, b.coverage⟩

/-- A state in which branches below a path can be searched. -/
structure Ready (path : List String) (s : SearchState α) : Prop where
  sound : Sound s
  path_eq : s.path = path
  onTime : s.timedOut = false

theorem Ready.next {path : List String} {out : List Nat} (h : Ready path s)
    (he : Extends s s' out) (ha : Advances s s') : Ready path s' :=
  ⟨he.sound, he.path.trans h.path_eq, ha.timedOut.trans h.onTime⟩

/-- Nothing was cut off so far. -/
def Uncut (limits : Limits α) (s : SearchState α) : Prop := ∀ n ∈ s.notifications, ¬ IsCut limits n

theorem Uncut.before (h : Uncut limits s') (ha : Advances s s') : Uncut limits s :=
  fun n hn => h n (ha.notifications.subset hn)

/-- What a link leads to, with the coverage that is left. -/
def linked (nodes : List (Node α)) (r : Link × Coverage α) : List (Composition α) × Coverage α :=
  (composed nodes r.1.nodes, r.2)

/-- What links lead to, with the coverage that is left. -/
def linkedAll (nodes : List (Node α)) (r : List Link × Coverage α) :
    List (List (Composition α)) × Coverage α :=
  (r.1.map fun l => composed nodes l.nodes, r.2)

/-- A node that was made, and its composition. -/
def Shows (nodes : List (Node α)) (made : Nat × Coverage α) (p : Composition α × Coverage α) : Prop :=
  composed nodes [made.1] = [p.1] ∧ made.2 = p.2

/-- The composition of the node that is pushed next. -/
theorem composed_push (s : SearchState α) (o : Observable) (scale : Scale α) (means : Means α)
    (coverage : Coverage α) (links : List Link) :
    composed (s.push o scale means coverage links).2.nodes [s.nodes.length] =
      [.node o.key scale means coverage (links.map fun l => composed s.nodes l.nodes)] :=
  composed_concat_length

/-! ## A search that cuts off nothing -/

/-- Where a searcher below a path cuts off nothing, a finder finds the same. -/
structure Reflects (limits : Limits α) (path : List String) (deeper : Searcher α)
    (find : Finder α) : Prop where
  extending : Extending deeper
  advancing : Advancing deeper
  finds : ∀ {o : Observable} {ctx : Context α} {s s' : SearchState α} {b : Branch α},
    Ready path s → deeper o ctx s = .ok (b, s') → Uncut limits s' →
      find o ctx = some (finding s'.nodes b)

section reflects

variable {path : List String} {find : Finder α} (hr : Reflects limits path deeper find)

include hr

theorem linkStep_reflects (hs : Ready path s) (hcut : Uncut limits s') {d : Dependency α}
    {coverage : Coverage α} {res : Option (Link × Coverage α)}
    (h : LinkStep deeper m ctx d coverage s res s') :
    Ideal.linkDependency find m ctx d coverage = some (res.map (linked s'.nodes)) := by
  cases h with
  | deferred hdef =>
    simp only [Ideal.linkDependency, hdef, if_true, Option.map_some, linked, composed_push]
    rfl
  | @found b _ hdef hb hne =>
    have hin := (hr.extending hs.sound hb).found
    have hsome : composed s'.nodes b.nodes ≠ [] := mt (composed_eq_nil hin).mp hne
    simp [Ideal.linkDependency, hdef, hr.finds hs hb hcut, finding, hsome, linked]
  | @missing b s₁ n means covered hdef hb hn hstands =>
    have hfound := hr.finds hs hb (hcut.before ⟨List.prefix_append _ _, rfl⟩)
    have hmissing : Ideal.linkMissing d (d.scale.getD ctx.scale) =
        some (Ideal.standIn d (d.scale.getD ctx.scale) means covered) := by
      unfold Ideal.linkMissing
      cases hstands with
      | deferred hdef' => rw [hdef] at hdef'; cases hdef'
      | constant _ hv => rw [hv]
      | unresolved _ hv hopt => rw [hv]; exact if_pos hopt
    have hpush := composed_push (s₁.notify n) d.observable (d.scale.getD ctx.scale) means covered []
    rw [SearchState.nodes_notify] at hpush
    simp only [Ideal.linkDependency, hdef, Bool.false_eq_true, if_false, hfound, Option.map_some,
      finding, hn, composed_nil, List.isEmpty_nil, if_true, hmissing, linked, hpush]
    rfl
  | @refused b s₁ n hdef hb hn hv hopt =>
    have hfound := hr.finds hs hb (hcut.before ⟨List.prefix_append _ _, rfl⟩)
    simp [Ideal.linkDependency, hdef, hfound, finding, hn, Ideal.linkMissing, hv, hopt]

theorem linkRun_reflects (hs : Ready path s) (hcut : Uncut limits s') {ds : List (Dependency α)}
    {coverage : Coverage α} {res : Option (List Link × Coverage α)}
    (h : LinkRun deeper m o ctx ds coverage s res s') :
    Ideal.linkAll find m ctx ds coverage = some (res.map (linkedAll s'.nodes)) := by
  induction h with
  | nil => rfl
  | @cons d ds coverage coverage₁ coverage₂ s s₁ s₂ link links hstep hrun ih =>
    have he := linkStep_extends hr.extending hs.sound hstep
    have hs₁ := hs.next he (linkStep_advances hr.advancing hstep)
    have hlink := linkStep_reflects hr hs (hcut.before (linkRun_advances hr.advancing hrun)) hstep
    have hsame : composed s₂.nodes link.nodes = composed s₁.nodes link.nodes :=
      composed_extend (linkRun_extends hr.extending he.sound hrun).nodes he.found
    simp only [Ideal.linkAll, hlink, Option.map_some, linked, ih hs₁ hcut, linkedAll,
      List.map_cons, hsame]
  | refused hstep =>
    have hlink := linkStep_reflects hr hs hcut hstep
    simp only [Ideal.linkAll, hlink, Option.map_none]
  | @refusedLater d ds coverage coverage₁ s s₁ s₂ link hstep hrun ih =>
    have he := linkStep_extends hr.extending hs.sound hstep
    have hs₁ := hs.next he (linkStep_advances hr.advancing hstep)
    have hlink := linkStep_reflects hr hs (hcut.before (linkRun_advances hr.advancing hrun)) hstep
    simp only [Ideal.linkAll, hlink, Option.map_some, linked, ih hs₁ hcut, Option.map_none]

theorem trial_reflects (hs : Ready path s) (hcut : Uncut limits s')
    {res : Option (Nat × Coverage α)} (h : Trial deeper o ctx c s res s') :
    ∃ p, Ideal.tryCandidate find o ctx c = some p ∧ Option.Rel (Shows s'.nodes) res p := by
  cases h with
  | refused hrun =>
    have hlinks := linkRun_reflects hr hs hcut hrun
    exact ⟨none, by simp [Ideal.tryCandidate, hlinks], .none⟩
  | @uncovered links coverage s₁ n hrun hnone =>
    have hlinks := linkRun_reflects hr hs (hcut.before ⟨List.prefix_append _ _, rfl⟩) hrun
    exact ⟨none, by simp [Ideal.tryCandidate, hlinks, linkedAll, hnone, Coverage.isEmpty], .none⟩
  | @made links coverage s₁ hrun hne =>
    have hcut₁ : Uncut limits s₁ := hcut
    have hlinks := linkRun_reflects hr hs hcut₁ hrun
    refine ⟨some (.node o.key ctx.scale (.model c.model) coverage
      (links.map fun l => composed s₁.nodes l.nodes), coverage), ?_, .some ⟨?_, rfl⟩⟩
    · simp [Ideal.tryCandidate, hlinks, linkedAll, Coverage.isEmpty, hne]
    · exact composed_push s₁ o ctx.scale (.model c.model) coverage links

include hclock

theorem tryRun_reflects (hs : Ready path s) (hcut : Uncut limits s') {cs : List (Candidate α)}
    {accepted : List Nat} {covered : Coverage α} {res : List Nat × Coverage α}
    (hin : ∀ i ∈ accepted, i < s.nodes.length)
    (h : TryRun limits deeper o ctx cs accepted covered s res s') :
    Ideal.tryAll limits find o ctx cs (composed s.nodes accepted) covered =
      some (composed s'.nodes res.1, res.2) := by
  induction h with
  | nil => rfl
  | @complete cs _ _ _ hcomplete =>
    cases cs with
    | nil => rfl
    | cons c cs => simp only [Ideal.tryAll, hcomplete, if_true]
  | late hlate => rw [look_onTime hclock hs.onTime] at hlate; cases hlate
  | @skipped c cs accepted covered s s' res hgo hgain hrun ih =>
    have hs₁ := hs.next hs.sound.look (.look hclock s)
    have hrest := ih hs₁ hcut (by simpa using hin)
    rw [SearchState.nodes_look] at hrest
    simp only [Ideal.tryAll, hgo.1, Bool.false_eq_true, if_false, hgain, if_true, hrest]
  | @dropped c cs accepted covered s s₁ s' tried res hgo hgain htrial hless hrun ih =>
    have hs₁ := hs.next hs.sound.look (.look hclock s)
    have he := hs.sound.look.trans (trial_extends hr.extending hs₁.sound htrial)
    have ha := (Advances.look hclock s).trans (trial_advances hr.advancing htrial)
    have hback := he.nodes_rollback
    have hcut₂ := hcut.before (tryRun_advances hclock hr.advancing hrun)
    have hcut₁ : Uncut limits s₁ := fun n hn => hcut₂ n (by simpa using hn)
    obtain ⟨p, hp, hrel⟩ := trial_reflects hr hs₁ hcut₁ htrial
    have hrest := ih (hs.next he.rollback (ha.rollback _)) hcut (by rwa [hback])
    rw [hback] at hrest
    simp only [Ideal.tryAll, hgo.1, Bool.false_eq_true, if_false, hgain, hp]
    cases hrel with
    | none => exact hrest
    | @some made q hshows =>
      have hless : covered.gain q.2 < limits.minContribution := hshows.2 ▸ hless made rfl
      simp only [hless, if_true, hrest]
  | @accepted c cs accepted covered coverage id s s₁ s' res hgo hgain htrial hmore hrun ih =>
    have hs₁ := hs.next hs.sound.look (.look hclock s)
    have he : Extends s s₁ [id] := hs.sound.look.trans (trial_extends hr.extending hs₁.sound htrial)
    have ha := (Advances.look hclock s).trans (trial_advances hr.advancing htrial)
    have hcut₁ := hcut.before (tryRun_advances hclock hr.advancing hrun)
    obtain ⟨p, hp, hrel⟩ := trial_reflects hr hs₁ hcut₁ htrial
    have hrest := ih (hs.next he ha) hcut (he.found_append hin)
    cases hrel with
    | @some _ q hshows =>
      obtain ⟨hshown, rfl⟩ := hshows
      rw [composed_append, hshown, composed_extend he.nodes hin] at hrest
      simp only [Ideal.tryAll, hgo.1, Bool.false_eq_true, if_false, hgain, hp, hmore, hrest]

end reflects

/-- The ideal search concludes as the search does. -/
theorem finding_conclude {nodes : List (Node α)} {accepted : List Nat} {covered : Coverage α}
    (hs : s.timedOut = false) (hin : ∀ i ∈ accepted, i < nodes.length) :
    finding nodes (conclude limits o accepted covered s).1 =
      Ideal.conclude limits (composed nodes accepted) covered := by
  have hempty : (composed nodes accepted).isEmpty = accepted.isEmpty := by
    rw [Bool.eq_iff_iff, List.isEmpty_iff, List.isEmpty_iff]
    exact composed_eq_nil hin
  simp only [finding, nodes_conclude_fst, coverage_conclude_fst, Ideal.conclude, hempty]
  congr 1
  unfold conclude
  rw [hs]
  split
  · rfl
  · split <;> rfl

include hclock in
theorem branchStep_reflects {sources : Sources α} (hplain : limits.reuses = false) {remaining : Nat}
    {b : Branch α} (hr : ∀ n < remaining, ∀ path, Reflects limits path (branch sources limits n)
      (Ideal.branch sources limits n path)) {path : List String} (hs : Ready path s)
    (hcut : Uncut limits s') (h : BranchStep sources limits remaining o ctx s b s') :
    Ideal.branch sources limits remaining path o ctx = some (finding s'.nodes b) := by
  cases h with
  | cycle _ hn => exact absurd hn (hcut _ (by simp))
  | tooDeep _ hn => exact absurd hn (hcut _ (by simp))
  | kept _ hk => simp [kept?, hplain] at hk
  | late _ hlate => rw [look_onTime hclock hs.onTime] at hlate; cases hlate
  | @searched remaining _ _ s s₁ found accepted covered hpath _ hfound hrun =>
    have hnew : pathKey o ctx.scale ∉ path := hs.path_eq ▸ hpath
    have hready : Ready (pathKey o ctx.scale :: path) (entered limits o ctx found s) :=
      ⟨entered_sound hs.sound, by simp [entered, hs.path_eq],
        (Advances.look hclock s).timedOut.trans hs.onTime⟩
    have hr := hr remaining (Nat.lt_succ_self _) (pathKey o ctx.scale :: path)
    have hcut₁ : Uncut limits s₁ := fun n hn =>
      hcut n ((notifications_conclude limits o accepted covered s₁).subset hn)
    have htried := tryRun_reflects hclock hr hready hcut₁ (by simp) hrun
    have he := tryRun_extends hr.extending hready.sound (by simp) hrun
    have hs₁ := hready.next he (tryRun_advances hclock hr.advancing hrun)
    have hend : finding s₁.nodes (conclude limits o accepted covered s₁).1 =
        Ideal.conclude limits (composed s₁.nodes accepted) covered :=
      finding_conclude hs₁.onTime he.found
    rw [composed_nil] at htried
    simp only [Ideal.branch, hnew, if_false, hfound, htried, Option.map_some, ← hend]
    simp [left]

include hclock in
/-- Where a search that keeps nothing cuts off nothing, the ideal search finds the same. -/
theorem branch_reflects (sources : Sources α) (hplain : limits.reuses = false) (remaining : Nat)
    (path : List String) : Reflects limits path (branch sources limits remaining)
      (Ideal.branch sources limits remaining path) := by
  induction remaining using Nat.strongRecOn generalizing path with
  | ind remaining ih =>
    exact ⟨branch_extends sources limits remaining, branch_advances hclock sources remaining,
      fun hs h hcut => branchStep_reflects hclock hplain ih hs hcut (branchStep h)⟩

end Obsplan.Search
