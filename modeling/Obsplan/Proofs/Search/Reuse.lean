import Obsplan.Proofs.Candidate.Lookup
import Obsplan.Proofs.Search.Uncut

/-!
# Searches that use branches again

A branch is kept with the answer that the ideal search gives somewhere to what is asked alike. So
wherever the ideal search does not give up, a search that uses branches again finds the same.
-/

namespace Obsplan.Search

variable {α : Type} [Coordinate α] {sources : Sources α} {limits : Limits α} {root ctx : Context α}
  {s s₁ s' : SearchState α} {path : List String} {deeper : Searcher α} {find : Finder α}
  {m : Model α} {o : Observable} {c : Candidate α}

/-- Every kept branch is what the ideal search finds somewhere for something kept under its key. -/
def Faithful (sources : Sources α) (limits : Limits α) (root : Context α) (s : SearchState α) : Prop :=
  ∀ e ∈ s.resolved.entries, ∃ o ctx n path, Follows root ctx ∧
    branchKey o ctx.scale ctx.constraints = e.1 ∧
      Ideal.branch sources limits n path o ctx = some (finding s.nodes e.2)

theorem finding_extend {nodes nodes' : List (Node α)} {b : Branch α} (h : nodes <+: nodes')
    (hb : ∀ i ∈ b.nodes, i < nodes.length) : finding nodes' b = finding nodes b := by
  rw [finding, finding, composed_extend h hb]

theorem Faithful.extend (h : Faithful sources limits root s) (hs : Sound s)
    (hn : s.nodes <+: s'.nodes) (hr : s'.resolved = s.resolved) :
    Faithful sources limits root s' := by
  intro e he
  rw [hr] at he
  obtain ⟨o, ctx, n, path, hctx, hkey, hfound⟩ := h e he
  refine ⟨o, ctx, n, path, hctx, hkey, ?_⟩
  rw [finding_extend hn (hs.kept e he)]
  exact hfound

theorem Faithful.rollback {out : List Nat} (h : Faithful sources limits root s₁)
    (he : Extends s s₁ out) : Faithful sources limits root (s₁.rollback s.nodes.length) := by
  intro e hmem
  obtain ⟨o, ctx, n, path, hctx, hkey, hfound⟩ := h e (SearchState.mem_resolved_rollback hmem).1
  refine ⟨o, ctx, n, path, hctx, hkey, ?_⟩
  have hback : (s₁.rollback s.nodes.length).nodes <+: s₁.nodes := by
    rw [he.nodes_rollback]; exact he.nodes
  rw [hfound, finding_extend hback (he.rollback.sound.kept e hmem)]

/-- Below a path, a searcher finds whatever a finder finds. -/
structure Realizes (sources : Sources α) (limits : Limits α) (root : Context α) (path : List String)
    (find : Finder α) (deeper : Searcher α) : Prop where
  extending : Extending deeper
  advancing : Advancing deeper
  finds : ∀ {o : Observable} {ctx : Context α} {s : SearchState α} {found : Finding α},
    Ready path s → Faithful sources limits root s → Follows root ctx → find o ctx = some found →
      ∃ b s', deeper o ctx s = .ok (b, s') ∧ finding s'.nodes b = found ∧
        Faithful sources limits root s'

/-! ## Dependencies -/

theorem linkDependency_deferred {d : Dependency α} {coverage : Coverage α} (h : d.deferred = true) :
    linkDependency deeper m o ctx d coverage s =
      .ok (some (⟨d.observable, [s.nodes.length]⟩, coverage),
        (s.push d.observable (d.scale.getD ctx.scale) .deferred
          (.full (d.scale.getD ctx.scale)) []).2) := by
  simp only [linkDependency, h, if_true]
  rfl

theorem linkDependency_searched {d : Dependency α} {coverage : Coverage α} {b : Branch α}
    (h : d.deferred = false) (hb : deeper d.observable (inner m ctx d) s = .ok (b, s₁)) :
    linkDependency deeper m o ctx d coverage s =
      if b.nodes = [] then
        .ok ((linkMissing m o d (d.scale.getD ctx.scale) s₁).1.map (·, coverage),
          (linkMissing m o d (d.scale.getD ctx.scale) s₁).2)
      else .ok (some (⟨d.observable, b.nodes⟩, narrowed d coverage b.coverage), s₁) := by
  simp only [inner] at hb
  simp only [linkDependency, h, Bool.false_eq_true, if_false, hb, ← List.isEmpty_iff]
  rfl

theorem linkAll_refused {d : Dependency α} {ds : List (Dependency α)} {links : List Link}
    {coverage : Coverage α} (h : linkDependency deeper m o ctx d coverage s = .ok (none, s₁)) :
    linkAll deeper m o ctx (d :: ds) links coverage s = .ok (none, s₁) := by
  rw [linkAll, h]
  rfl

theorem linkAll_linked {d : Dependency α} {ds : List (Dependency α)} {link : Link}
    {links : List Link} {coverage coverage₁ : Coverage α}
    (h : linkDependency deeper m o ctx d coverage s = .ok (some (link, coverage₁), s₁)) :
    linkAll deeper m o ctx (d :: ds) links coverage s =
      linkAll deeper m o ctx ds (links ++ [link]) coverage₁ s₁ := by
  rw [linkAll, h]
  rfl

/-- What stands for a missing dependency is composed as in the ideal search. -/
theorem linkMissing_realizes (m : Model α) (o : Observable) (d : Dependency α) (scale : Scale α)
    (s : SearchState α) :
    ((linkMissing m o d scale s).1.map fun l => composed (linkMissing m o d scale s).2.nodes l.nodes) =
        Ideal.linkMissing d scale ∧
      s.nodes <+: (linkMissing m o d scale s).2.nodes ∧
      (linkMissing m o d scale s).2.resolved = s.resolved := by
  unfold linkMissing Ideal.linkMissing
  cases d.observable.defaultValue with
  | some value =>
    exact ⟨congrArg some (composed_push _ _ _ _ _ _), List.prefix_append _ _, rfl⟩
  | none =>
    by_cases hopt : d.observable.optional = true
    · simp only [hopt, if_true]
      exact ⟨congrArg some (composed_push _ _ _ _ _ _), List.prefix_append _ _, rfl⟩
    · rw [if_neg hopt, if_neg hopt]
      exact ⟨rfl, List.prefix_rfl, rfl⟩

/-- Linking dependencies only adds nodes. -/
theorem linkAll_extends (hext : Extending deeper) (hs : Sound s) {ds : List (Dependency α)}
    {links : List Link} {coverage : Coverage α} {res : Option (List Link × Coverage α)}
    (h : linkAll deeper m o ctx ds links coverage s = .ok (res, s')) : Extends s s' [] := by
  rcases linkRun h with ⟨-, hrun⟩ | ⟨_, _, -, hrun⟩
  · exact linkRun_extends hext hs hrun
  · exact (linkRun_extends hext hs hrun).forget

/-! ## Candidates -/

theorem tryCandidate_refused
    (h : linkAll deeper c.model o ctx c.model.dependencies [] c.coverage s = .ok (none, s₁)) :
    tryCandidate deeper o ctx c s = .ok (none, s₁) := by
  rw [tryCandidate, h]
  rfl

theorem tryCandidate_uncovered {links : List Link} {coverage : Coverage α}
    (h : linkAll deeper c.model o ctx c.model.dependencies [] c.coverage s =
      .ok (some (links, coverage), s₁)) (hempty : coverage.isEmpty = true) :
    ∃ n, tryCandidate deeper o ctx c s = .ok (none, s₁.notify n) := by
  rw [tryCandidate, h]
  exact ⟨_, if_pos hempty⟩

theorem tryCandidate_made {links : List Link} {coverage : Coverage α}
    (h : linkAll deeper c.model o ctx c.model.dependencies [] c.coverage s =
      .ok (some (links, coverage), s₁)) (hsome : coverage.isEmpty = false) :
    tryCandidate deeper o ctx c s = .ok (some (s₁.nodes.length, coverage),
      (s₁.push o ctx.scale (.model c.model) coverage links).2) := by
  rw [tryCandidate, h]
  exact if_neg (by simp [hsome])

section realizes

variable (hr : Realizes sources limits root path find deeper)

include hr

theorem linkDependency_realizes (hs : Ready path s) (hf : Faithful sources limits root s)
    (hctx : Follows root ctx) (hm : m.HandsDownPlain) {d : Dependency α} {coverage : Coverage α}
    {p : Option (List (Composition α) × Coverage α)}
    (h : Ideal.linkDependency find m ctx d coverage = some p) :
    ∃ res s', linkDependency deeper m o ctx d coverage s = .ok (res, s') ∧
      res.map (linked s'.nodes) = p ∧ Faithful sources limits root s' := by
  by_cases hdef : d.deferred = true
  · simp only [Ideal.linkDependency, hdef, if_true, Option.some.injEq] at h
    subst h
    refine ⟨_, _, linkDependency_deferred hdef, ?_, hf.extend hs.sound ?_ rfl⟩
    · simp only [Option.map_some, linked, composed_push]
      rfl
    · exact List.prefix_append _ _
  · have hdef : d.deferred = false := by simpa using hdef
    simp only [Ideal.linkDependency, hdef, Bool.false_eq_true, if_false] at h
    obtain ⟨found, hfound, hp⟩ := Option.map_eq_some_iff.mp h
    obtain ⟨b, s₁, hb, rfl, hf₁⟩ := hr.finds hs hf (hctx.inner hm d) hfound
    have he := hr.extending hs.sound hb
    have hlink : linkDependency deeper m o ctx d coverage s = _ := linkDependency_searched hdef hb
    by_cases hn : b.nodes = []
    · rw [if_pos hn] at hlink
      obtain ⟨hmissing, hnodes, hresolved⟩ :=
        linkMissing_realizes m o d (d.scale.getD ctx.scale) s₁
      refine ⟨_, _, hlink, ?_, hf₁.extend he.sound hnodes hresolved⟩
      simp only [finding, hn, composed_nil, List.isEmpty_nil, if_true, ← hmissing] at hp
      rw [← hp, Option.map_map, Option.map_map]
      rfl
    · rw [if_neg hn] at hlink
      refine ⟨_, _, hlink, ?_, hf₁⟩
      have hsome : composed s₁.nodes b.nodes ≠ [] := mt (composed_eq_nil he.found).mp hn
      simp only [finding, List.isEmpty_iff, hsome, if_false] at hp
      exact hp

theorem linkAll_realizes (hs : Ready path s) (hf : Faithful sources limits root s)
    (hctx : Follows root ctx) (hm : m.HandsDownPlain) {ds : List (Dependency α)}
    {coverage : Coverage α} {p : Option (List (List (Composition α)) × Coverage α)}
    (h : Ideal.linkAll find m ctx ds coverage = some p) (links : List Link) :
    ∃ (res : Option (List Link × Coverage α)) (s' : SearchState α),
      linkAll deeper m o ctx ds links coverage s =
        .ok (res.map fun r => (links ++ r.1, r.2), s') ∧
      res.map (linkedAll s'.nodes) = p ∧ Faithful sources limits root s' := by
  induction ds generalizing coverage p s links with
  | nil =>
    simp only [Ideal.linkAll, Option.some.injEq] at h
    subst h
    exact ⟨some ([], coverage), s, by simp [linkAll], rfl, hf⟩
  | cons d ds ih =>
    simp only [Ideal.linkAll] at h
    cases hl : Ideal.linkDependency find m ctx d coverage with
    | none => rw [hl] at h; cases h
    | some q =>
      obtain ⟨res₁, s₁, hlink, hq, hf₁⟩ := linkDependency_realizes (o := o) hr hs hf hctx hm hl
      have he := linkStep_extends hr.extending hs.sound (linkStep hlink)
      have hs₁ := hs.next he (linkStep_advances hr.advancing (linkStep hlink))
      subst hq
      cases res₁ with
      | none =>
        rw [hl] at h
        cases h
        exact ⟨none, s₁, linkAll_refused hlink, rfl, hf₁⟩
      | some linked₁ =>
        obtain ⟨link, coverage₁⟩ := linked₁
        rw [hl] at h
        obtain ⟨q, hrest, hp⟩ := Option.map_eq_some_iff.mp h
        obtain ⟨res, s', hmore, hq, hf'⟩ := ih hs₁ hf₁ hrest (links ++ [link])
        have hsame : composed s'.nodes link.nodes = composed s₁.nodes link.nodes :=
          composed_extend (linkAll_extends hr.extending he.sound hmore).nodes he.found
        refine ⟨res.map fun r => (link :: r.1, r.2), s', ?_, ?_, hf'⟩
        · rw [linkAll_linked hlink]
          refine hmore.trans ?_
          cases res <;> simp
        · rw [← hp, ← hq]
          cases res <;> simp [linkedAll, hsame]

theorem tryCandidate_realizes (hs : Ready path s) (hf : Faithful sources limits root s)
    (hctx : Follows root ctx) (hm : c.model.HandsDownPlain)
    {p : Option (Composition α × Coverage α)} (h : Ideal.tryCandidate find o ctx c = some p) :
    ∃ res s', tryCandidate deeper o ctx c s = .ok (res, s') ∧ Option.Rel (Shows s'.nodes) res p ∧
      Faithful sources limits root s' := by
  obtain ⟨q, hlinks, hp⟩ := Option.map_eq_some_iff.mp h
  obtain ⟨res, s₁, hlink, rfl, hf₁⟩ := linkAll_realizes (o := o) hr hs hf hctx hm hlinks []
  have he := linkAll_extends hr.extending hs.sound hlink
  cases res with
  | none =>
    subst hp
    exact ⟨none, s₁, tryCandidate_refused hlink, .none, hf₁⟩
  | some res =>
    obtain ⟨links, coverage⟩ := res
    simp only [Option.map_some, linkedAll, Option.bind_some] at hp
    by_cases hempty : coverage.isEmpty = true
    · obtain ⟨n, hn⟩ := tryCandidate_uncovered hlink hempty
      rw [if_pos hempty] at hp
      subst hp
      exact ⟨none, s₁.notify n, hn, .none, hf₁⟩
    · rw [if_neg hempty] at hp
      subst hp
      refine ⟨_, _, tryCandidate_made hlink (by simpa using hempty), .some ⟨?_, rfl⟩,
        hf₁.extend he.sound ?_ rfl⟩
      · exact composed_push s₁ o ctx.scale (.model c.model) coverage links
      · exact List.prefix_append _ _

theorem tryAll_realizes (hclock : ∀ n, limits.isLate n = false) (hs : Ready path s)
    (hf : Faithful sources limits root s) (hctx : Follows root ctx) {cs : List (Candidate α)}
    (hcs : ∀ c ∈ cs, c.model.HandsDownPlain) {accepted : List Nat} {covered : Coverage α}
    (hin : ∀ i ∈ accepted, i < s.nodes.length) {p : List (Composition α) × Coverage α}
    (h : Ideal.tryAll limits find o ctx cs (composed s.nodes accepted) covered = some p) :
    ∃ ids s', tryAll limits deeper o ctx cs accepted covered s = .ok ((ids, p.2), s') ∧
      composed s'.nodes ids = p.1 ∧ Faithful sources limits root s' := by
  induction cs generalizing s accepted covered with
  | nil =>
    cases h
    exact ⟨accepted, s, rfl, rfl, hf⟩
  | cons c cs ih =>
    obtain ⟨hc, hcs⟩ := List.forall_mem_cons.mp hcs
    unfold Ideal.tryAll at h
    by_cases hcomplete : covered.isComplete limits.tolerance = true
    · rw [if_pos hcomplete] at h
      cases h
      exact ⟨accepted, s, tryAll_complete hcomplete, rfl, hf⟩
    rw [if_neg hcomplete] at h
    have hgo : GoesOn limits covered s := ⟨by simpa using hcomplete, look_onTime hclock hs.onTime⟩
    have hlook : Extends s (s.look limits).2 [] := hs.sound.look
    have hs₁ := hs.next hlook (.look hclock s)
    have hf₁ : Faithful sources limits root (s.look limits).2 :=
      hf.extend hs.sound hlook.nodes (s.resolved_look limits)
    by_cases hgain : covered.gain c.coverage < limits.minContribution
    · rw [if_pos hgain] at h
      rw [tryAll_skipped hgo hgain]
      exact ih hs₁ hf₁ hcs (by simpa using hin) (by rwa [SearchState.nodes_look])
    rw [if_neg hgain] at h
    cases ht : Ideal.tryCandidate find o ctx c with
    | none => rw [ht] at h; cases h
    | some q =>
      rw [ht] at h
      obtain ⟨tried, s₂, htried, hrel, hf₂⟩ := tryCandidate_realizes hr hs₁ hf₁ hctx hc ht
      have htrial := trial_extends hr.extending hs₁.sound (trial htried)
      have he := hlook.trans htrial
      have hs₂ := hs₁.next htrial (trial_advances hr.advancing (trial htried))
      have hback := he.nodes_rollback
      have hs₃ := hs.next he.rollback
        (((Advances.look hclock s).trans (trial_advances hr.advancing (trial htried))).rollback
          s.nodes.length)
      -- a candidate that is not accepted leaves no trace in the nodes
      have hdropped : (∀ made ∈ tried, covered.gain made.2 < limits.minContribution) →
          Ideal.tryAll limits find o ctx cs (composed s.nodes accepted) covered = some p →
          ∃ ids s', tryAll limits deeper o ctx (c :: cs) accepted covered s = .ok ((ids, p.2), s') ∧
            composed s'.nodes ids = p.1 ∧ Faithful sources limits root s' := by
        intro hless h
        rw [tryAll_dropped hgo hgain htried hless]
        exact ih hs₃ (hf₂.rollback he) hcs (by rwa [hback]) (by rwa [hback])
      cases hrel with
      | none => exact hdropped (by simp) h
      | @some made q hshows =>
        obtain ⟨id, coverage⟩ := made
        obtain ⟨hshown, hcoverage⟩ := hshows
        cases hcoverage
        by_cases hless : covered.gain q.2 < limits.minContribution
        · simp only [if_pos hless] at h
          exact hdropped (by rintro _ ⟨⟩; exact hless) h
        · simp only [if_neg hless] at h
          rw [tryAll_accepted hgo hgain htried hless]
          refine ih hs₂ hf₂ hcs (he.found_append hin) ?_
          rw [composed_append, hshown, composed_extend he.nodes hin]
          exact h

end realizes

/-! ## Branches -/

theorem branch_kept {n : Nat} {b : Branch α} (hpath : pathKey o ctx.scale ∉ s.path)
    (h : kept? limits o ctx s = some b) : branch sources limits (n + 1) o ctx s = .ok (b, s) := by
  simp only [branch, if_neg hpath, h]

theorem branch_searched {n : Nat} {found : Candidates α} {accepted : List Nat}
    {covered : Coverage α} (hpath : pathKey o ctx.scale ∉ s.path)
    (hkept : kept? limits o ctx s = none) (hlook : (s.look limits).1 = false)
    (hfound : Candidate.lookup sources o ctx (.remainder ctx.scale (.empty ctx.scale)) = .ok found)
    (htried : tryAll limits (branch sources limits n) o ctx found.list [] (.empty ctx.scale)
      (entered limits o ctx found s) = .ok ((accepted, covered), s₁)) :
    branch sources limits (n + 1) o ctx s = .ok ((conclude limits o accepted covered s₁).1,
      left o ctx (conclude limits o accepted covered s₁).1
        (conclude limits o accepted covered s₁).2) := by
  simp only [entered] at htried
  simp only [branch, if_neg hpath, hkept, hlook, Bool.false_eq_true, if_false, fresh, candidates,
    hfound]
  delta Except.mapError
  simp only [bind, Except.bind, pure, Except.pure, htried, left]
  split
  · rfl
  · rfl

/-- A branch that was searched is kept with what the ideal search finds for it. -/
theorem Faithful.left {b : Branch α} {n : Nat} {path : List String}
    (h : Faithful sources limits root s) (hctx : Follows root ctx)
    (hfound : Ideal.branch sources limits n path o ctx = some (finding s.nodes b)) :
    Faithful sources limits root (left o ctx b s) := by
  intro e he
  simp only [Search.left] at he ⊢
  split at he
  · rcases Keyed.mem_insert he with rfl | he
    · exact ⟨o, ctx, n, path, hctx, rfl, hfound⟩
    · exact h e he
  · exact h e he

variable [LegibleCoordinate α]

/-- A kept branch is what the ideal search finds. -/
theorem Faithful.kept (hsem : sources.Semantic) (hf : Faithful sources limits root s)
    (hctx : Follows root ctx) {b : Branch α} (hkept : kept? limits o ctx s = some b) {n : Nat}
    {path : List String} {found : Finding α}
    (h : Ideal.branch sources limits n path o ctx = some found) : finding s.nodes b = found := by
  simp only [kept?] at hkept
  split at hkept
  · obtain ⟨o', ctx', n', path', hctx', hkey, hfound⟩ := hf _ (Keyed.mem_of_get? hkept)
    obtain ⟨hkey, halike⟩ := hctx'.alike hctx hkey
    exact Ideal.branch_unique hsem hkey halike hfound h
  · cases hkept

/-- Wherever the ideal search does not give up, the search finds the same. -/
theorem branch_realizes (hsem : sources.Semantic) (hclock : ∀ n, limits.isLate n = false)
    (hmodels : ∀ m, sources.Offers m → m.HandsDownPlain) (root : Context α) (n : Nat)
    (path : List String) :
    Realizes sources limits root path (Ideal.branch sources limits n path)
      (branch sources limits n) := by
  induction n generalizing path with
  | zero =>
    refine ⟨branch_extends sources limits 0, branch_advances hclock sources 0, ?_⟩
    intro o ctx s found _ _ _ h
    cases h
  | succ n ih =>
    refine ⟨branch_extends sources limits (n + 1), branch_advances hclock sources (n + 1), ?_⟩
    intro o ctx s found hs hf hctx h
    have hideal := h
    unfold Ideal.branch at h
    by_cases hmem : pathKey o ctx.scale ∈ path
    · rw [if_pos hmem] at h; cases h
    rw [if_neg hmem] at h
    have hpath : pathKey o ctx.scale ∉ s.path := hs.path_eq ▸ hmem
    cases hl : Candidate.lookup sources o ctx (.remainder ctx.scale (.empty ctx.scale)) with
    | error _ => rw [hl] at h; cases h
    | ok candidates =>
      rw [hl] at h
      obtain ⟨r, hr, hconclude⟩ := Option.map_eq_some_iff.mp h
      cases hk : kept? limits o ctx s with
      | some b => exact ⟨b, s, branch_kept hpath hk, hf.kept hsem hctx hk hideal, hf⟩
      | none =>
        have hdeep := ih (pathKey o ctx.scale :: path)
        have hready : Ready (pathKey o ctx.scale :: path) (entered limits o ctx candidates s) :=
          ⟨entered_sound hs.sound, by simp [entered, hs.path_eq],
            (Advances.look hclock s).timedOut.trans hs.onTime⟩
        have hentered : Faithful sources limits root (entered limits o ctx candidates s) :=
          hf.extend hs.sound (by simp [entered]) (by simp [entered])
        have hplain : ∀ c ∈ candidates.list, c.model.HandsDownPlain :=
          fun c hc => hmodels _ (Candidate.mem_lookup hl hc).1
        have hstart : Ideal.tryAll limits (Ideal.branch sources limits n (pathKey o ctx.scale :: path))
            o ctx candidates.list (composed (entered limits o ctx candidates s).nodes [])
            (.empty ctx.scale) = some r := hr
        obtain ⟨ids, s₁, htried, hids, hf₁⟩ := tryAll_realizes hdeep hclock hready hentered hctx
          hplain (by simp) hstart
        have hrun := tryRun htried
        have he := tryRun_extends hdeep.extending hready.sound (by simp) hrun
        have hs₁ := hready.next he (tryRun_advances hclock hdeep.advancing hrun)
        have hend : finding s₁.nodes (conclude limits o ids r.2 s₁).1 = found := by
          rw [finding_conclude hs₁.onTime he.found, hids]
          exact hconclude
        refine ⟨_, _, branch_searched hpath hk (look_onTime hclock hs.onTime) hl htried, ?_, ?_⟩
        · simpa [left] using hend
        · have hf₂ : Faithful sources limits root (conclude limits o ids r.2 s₁).2 :=
            hf₁.extend hs₁.sound (by simp) (by simp)
          have hfound : Ideal.branch sources limits (n + 1) path o ctx =
              some (finding (conclude limits o ids r.2 s₁).2.nodes
                (conclude limits o ids r.2 s₁).1) := by
            rw [nodes_conclude, hend]
            exact hideal
          exact hf₂.left hctx hfound

end Obsplan.Search
