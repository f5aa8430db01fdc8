import Obsplan.Proofs.Candidate.Namespaces
import Obsplan.Proofs.Search.Contexts

/-!
# Searches among models of one namespace

When all models belong to one namespace, their search prefers that namespace below the observable
asked for, and so prefers all of them or none. Main statement: what is resolved is the same, but for
the namespaces of the models, when the models have none.
-/

namespace Obsplan

variable {α : Type} [Coordinate α]

/-! ## Computations side by side -/

/-- Two computations that fail alike, or whose results are related. -/
inductive Alongside {ε β γ : Type} (R : β → γ → Prop) : Except ε β → Except ε γ → Prop where
  | error (e : ε) : Alongside R (.error e) (.error e)
  | ok {b : β} {c : γ} : R b c → Alongside R (.ok b) (.ok c)

namespace Alongside

variable {ε ε' β γ β' γ' : Type} {R : β → γ → Prop} {Q : β' → γ' → Prop} {x : Except ε β}
  {y : Except ε γ}

theorem bind (h : Alongside R x y) {f : β → Except ε β'} {g : γ → Except ε γ'}
    (hfg : ∀ b c, R b c → Alongside Q (f b) (g c)) : Alongside Q (x >>= f) (y >>= g) := by
  cases h with
  | error e => exact .error e
  | ok h => exact hfg _ _ h

theorem mapError (h : Alongside R x y) (f : ε → ε') :
    Alongside R (x.mapError f) (y.mapError f) := by
  cases h with
  | error e => exact .error (f e)
  | ok h => exact .ok h

end Alongside

/-! ## Kept branches under other keys -/

namespace Keyed

variable {β : Type}

/-- Entries with a text at the end of their keys. -/
def suffixed (σ : String) (m : Keyed String β) : Keyed String β :=
  ⟨m.entries.map fun e => (e.1 ++ σ, e.2)⟩

variable (m : Keyed String β) (σ k : String) (x : β)

theorem append_eq_iff {k l σ : String} : k ++ σ = l ++ σ ↔ k = l := by
  rw [← String.toList_inj, String.toList_append, String.toList_append, List.append_left_inj,
    String.toList_inj]

theorem get?_suffixed : (m.suffixed σ).get? (k ++ σ) = m.get? k := by
  obtain ⟨es⟩ := m
  simp only [get?, suffixed]
  induction es with
  | nil => rfl
  | cons e es ih => simp only [List.map_cons, getIn, append_eq_iff, ih]

theorem insert_suffixed : (m.suffixed σ).insert (k ++ σ) x = (m.insert k x).suffixed σ := by
  obtain ⟨es⟩ := m
  simp only [insert, suffixed, mk.injEq]
  induction es with
  | nil => rfl
  | cons e es ih =>
    obtain ⟨l, y⟩ := e
    simp only [List.map_cons, setIn, append_eq_iff, ih]
    split
    · rfl
    · rfl

theorem keep_suffixed (test : β → Bool) :
    (m.suffixed σ).keep (fun _ => test) = (m.keep fun _ => test).suffixed σ := by
  simp only [keep, suffixed, List.filter_map]
  rfl

end Keyed

/-! ## States side by side -/

def Means.unspaced : Means α → Means α
  | .model m => .model m.unspaced
  | means => means

/-- A node whose model has lost its namespace. -/
def Node.unspaced (n : Node α) : Node α := { n with means := n.means.unspaced }

/-- A resolution whose models have lost their namespaces. -/
def Resolution.unspaced (r : Resolution α) : Resolution α :=
  { r with nodes := r.nodes.map Node.unspaced }

namespace Search

/-- The second state is the first one without namespaces. Branches are kept under keys with other
ends. -/
structure Mirrors (σ σ' : String) (s s' : SearchState α) : Prop where
  nodes : s'.nodes = s.nodes.map Node.unspaced
  path : s'.path = s.path
  notifications : s'.notifications = s.notifications
  looks : s'.looks = s.looks
  timedOut : s'.timedOut = s.timedOut
  kept : ∃ kept : Keyed String (Branch α),
    s.resolved = kept.suffixed σ ∧ s'.resolved = kept.suffixed σ'

namespace Mirrors

variable {σ σ' : String} {s s' : SearchState α}

theorem start (σ σ' : String) : Mirrors σ σ' ({} : SearchState α) {} :=
  ⟨rfl, rfl, rfl, rfl, rfl, .empty, rfl, rfl⟩

theorem length (h : Mirrors σ σ' s s') : s'.nodes.length = s.nodes.length := by
  rw [h.nodes, List.length_map]

theorem notify (h : Mirrors σ σ' s s') (n : Notification) :
    Mirrors σ σ' (s.notify n) (s'.notify n) :=
  { h with notifications := by simp [h.notifications] }

theorem push (h : Mirrors σ σ' s s') (o : Observable) (scale : Scale α) (means : Means α)
    (coverage : Coverage α) (links : List Link) :
    Mirrors σ σ' (s.push o scale means coverage links).2
      (s'.push o scale means.unspaced coverage links).2 :=
  { h with nodes := by simp [h.nodes, Node.unspaced] }

theorem look (h : Mirrors σ σ' s s') (limits : Limits α) :
    (s'.look limits).1 = (s.look limits).1 ∧
      Mirrors σ σ' (s.look limits).2 (s'.look limits).2 := by
  unfold SearchState.look
  simp only [h.timedOut, h.looks]
  split
  · exact ⟨rfl, h⟩
  · split
    · exact ⟨rfl, { h with
        looks := rfl
        timedOut := rfl
        notifications := by simp [h.notifications] }⟩
    · exact ⟨rfl, { h with
        looks := rfl
        timedOut := rfl }⟩

theorem rollback (h : Mirrors σ σ' s s') (checkpoint : Nat) :
    Mirrors σ σ' (s.rollback checkpoint) (s'.rollback checkpoint) := by
  obtain ⟨kept, hs, hs'⟩ := h.kept
  unfold SearchState.rollback
  rw [h.length]
  split
  · refine { h with
      nodes := by simp [h.nodes, List.map_take]
      kept := ⟨kept.keep fun _ b => b.nodes.all fun n => decide (n < checkpoint), ?_, ?_⟩ }
    · simp only [hs, ← Keyed.keep_suffixed]
    · simp only [hs', ← Keyed.keep_suffixed]
  · exact h

theorem enter (h : Mirrors σ σ' s s') (key : String) :
    Mirrors σ σ' { s with path := key :: s.path } { s' with path := key :: s'.path } :=
  { h with path := congrArg (key :: ·) h.path }

theorem leave (h : Mirrors σ σ' s s') (key : String) :
    Mirrors σ σ' { s with path := s.path.erase key } { s' with path := s'.path.erase key } :=
  { h with path := congrArg (·.erase key) h.path }

theorem keep (h : Mirrors σ σ' s s') (key : String) (b : Branch α) :
    Mirrors σ σ' { s with resolved := s.resolved.insert (key ++ σ) b }
      { s' with resolved := s'.resolved.insert (key ++ σ') b } := by
  obtain ⟨kept, hs, hs'⟩ := h.kept
  exact { h with kept := ⟨kept.insert key b, by simp only [hs, Keyed.insert_suffixed],
    by simp only [hs', Keyed.insert_suffixed]⟩ }

end Mirrors

/-! ## Contexts side by side -/

theorem scale_atScale (ctx : Context α) (scale : Scale α) : (ctx.atScale scale).scale = scale := rfl

theorem constraints_atScale (ctx : Context α) (scale : Scale α) :
    (ctx.atScale scale).constraints = ctx.constraints := rfl

/-- A context that prefers a namespace besides all it preferred. -/
def preferring (space : String) (ctx : Context α) : Context α :=
  ctx.constrained (preferences ({ urn := "", space, observables := [] } : Model α))

/-- All models of a namespace and of no project hand down the same. -/
theorem constrained_preferences {m : Model α} (hm : m.project = none) (ctx : Context α) :
    ctx.constrained (preferences m) = preferring m.space ctx := by
  simp [preferring, preferences, hm]

/-- A model without namespace and project hands down nothing. -/
theorem preferring_empty (ctx : Context α) : preferring "" ctx = ctx := rfl

/-- The contexts in which two searches below another one go on: the first one prefers a namespace
for what it goes on to, and the second one does not. -/
structure Descends (space : String) (root ctx ctx' : Context α) : Prop where
  scale : ctx'.scale = ctx.scale
  below : ∀ scale, Alike ((preferring space ctx).atScale scale)
    ((preferring space root).atScale scale)
  apart : ∀ scale, ctx'.atScale scale = root.atScale scale
  excluded : ctx'.constraints.excludedModels = ctx.constraints.excludedModels
  pinned : ctx'.constraints.pinnedVersion? = ctx.constraints.pinnedVersion?

theorem Descends.refl (space : String) (root : Context α) : Descends space root root root where
  scale := rfl
  below _ := ⟨rfl, fun _ => .rfl, fun _ => .rfl, rfl, rfl⟩
  apart _ := rfl
  excluded := rfl
  pinned := rfl

/-- A namespace that is preferred already is not added again. -/
theorem Descends.preferring (space : String) (root : Context α) (scale : Scale α) :
    Descends space root ((preferring space root).atScale scale) (root.atScale scale) where
  scale := rfl
  below _ := {
    scale := rfl
    namespaces n := by
      refine mem_namespaces_merge.trans ⟨fun h => h.elim id fun h => ?_, .inl⟩
      exact mem_namespaces_merge.mpr (.inr h)
    projects p := by
      refine mem_projects_merge.trans ⟨fun h => h.elim id fun h => ?_, .inl⟩
      exact mem_projects_merge.mpr (.inr h)
    excluded := excludedModels_merge
    pinned := pinnedVersion?_merge }
  apart _ := rfl
  excluded := excludedModels_merge.symm
  pinned := pinnedVersion?_merge.symm

/-! ## Searches side by side -/

/-- Results that are the same but for namespaces. -/
def SameResult {β : Type} (σ σ' : String) (r r' : β × SearchState α) : Prop :=
  r'.1 = r.1 ∧ Mirrors σ σ' r.2 r'.2

/-- Two searchers, below a context, find the same but for namespaces. -/
def Parallel (σ σ' space : String) (root : Context α) (deeper deeper' : Searcher α) : Prop :=
  ∀ o scale {s s' : SearchState α}, Mirrors σ σ' s s' → Alongside (SameResult σ σ')
    (deeper o ((preferring space root).atScale scale) s) (deeper' o (root.atScale scale) s')

section steps

variable {σ σ' space : String} {root ctx ctx' : Context α} {deeper deeper' : Searcher α}
  {s s' : SearchState α} {m : Model α} {o : Observable}

theorem linkMissing_unspaced (h : Mirrors σ σ' s s') (d : Dependency α) (scale : Scale α) :
    SameResult σ σ' (linkMissing m o d scale s) (linkMissing m.unspaced o d scale s') := by
  unfold linkMissing
  cases d.observable.defaultValue with
  | some value => exact ⟨by simp [standIn, h.length], (h.notify _).push ..⟩
  | none =>
    by_cases hoptional : d.observable.optional = true
    · simp only [hoptional, if_true]
      exact ⟨by simp [standIn, h.length], (h.notify _).push ..⟩
    · rw [if_neg hoptional, if_neg hoptional]
      exact ⟨rfl, h.notify _⟩

variable (hdeep : Parallel σ σ' space root deeper deeper') (hunbiased : Unbiased deeper)
  (hctx : Descends space root ctx ctx')

include hdeep hunbiased hctx

theorem linkDependency_unspaced (h : Mirrors σ σ' s s') (hspace : m.space = space)
    (hproject : m.project = none) (d : Dependency α) (coverage : Coverage α) :
    Alongside (SameResult σ σ') (linkDependency deeper m o ctx d coverage s)
      (linkDependency deeper' m.unspaced o ctx' d coverage s') := by
  unfold linkDependency
  rw [hctx.scale]
  by_cases hdeferred : d.deferred = true
  · simp only [hdeferred, if_true]
    exact .ok ⟨by simp [standIn, h.length], h.push ..⟩
  · simp only [hdeferred]
    rw [constrained_preferences hproject, hspace, hunbiased _ _ (hctx.below _),
      constrained_preferences (m := m.unspaced) hproject, Model.space_unspaced, preferring_empty,
      hctx.apart]
    refine (hdeep _ _ h).bind fun r r' hr => ?_
    obtain ⟨b, s₁⟩ := r
    obtain ⟨b', s₁'⟩ := r'
    obtain ⟨hb, h₁⟩ := hr
    cases hb
    simp only
    split
    · obtain ⟨hlink, hmirrors⟩ := linkMissing_unspaced (m := m) (o := o) h₁ d
        (d.scale.getD ctx.scale)
      exact .ok ⟨congrArg (Option.map (·, coverage)) hlink, hmirrors⟩
    · exact .ok ⟨rfl, h₁⟩

theorem linkAll_unspaced (h : Mirrors σ σ' s s') (hspace : m.space = space)
    (hproject : m.project = none) (ds : List (Dependency α)) (links : List Link)
    (coverage : Coverage α) : Alongside (SameResult σ σ')
      (linkAll deeper m o ctx ds links coverage s)
      (linkAll deeper' m.unspaced o ctx' ds links coverage s') := by
  induction ds generalizing links coverage s s' with
  | nil => exact .ok ⟨rfl, h⟩
  | cons d ds ih =>
    refine (linkDependency_unspaced hdeep hunbiased hctx h hspace hproject d coverage).bind ?_
    rintro ⟨linked, s₁⟩ ⟨linked', s₁'⟩ ⟨hlinked, h₁⟩
    cases hlinked
    cases linked with
    | none => exact .ok ⟨rfl, h₁⟩
    | some linked => exact ih h₁ _ _

theorem tryCandidate_unspaced (h : Mirrors σ σ' s s') {c : Candidate α}
    (hspace : c.model.space = space) (hproject : c.model.project = none) (flag : Bool) :
    Alongside (SameResult σ σ') (tryCandidate deeper o ctx c s)
      (tryCandidate deeper' o ctx' (c.unspaced flag) s') := by
  refine (linkAll_unspaced hdeep hunbiased hctx h hspace hproject _ _ _).bind ?_
  rintro ⟨linked, s₁⟩ ⟨linked', s₁'⟩ ⟨hlinked, h₁⟩
  cases hlinked
  cases linked with
  | none => exact .ok ⟨rfl, h₁⟩
  | some linked =>
    simp only
    split
    · exact .ok ⟨rfl, h₁.notify _⟩
    · rw [hctx.scale]
      exact .ok ⟨by simp [h₁.length], h₁.push ..⟩

theorem tryAll_unspaced (limits : Limits α) (h : Mirrors σ σ' s s') {cs : List (Candidate α)}
    (hcs : ∀ c ∈ cs, c.model.space = space ∧ c.model.project = none) (flag : Bool)
    (accepted : List Nat) (covered : Coverage α) :
    Alongside (SameResult σ σ') (tryAll limits deeper o ctx cs accepted covered s)
      (tryAll limits deeper' o ctx' (cs.map (·.unspaced flag)) accepted covered s') := by
  induction cs generalizing accepted covered s s' with
  | nil => exact .ok ⟨rfl, h⟩
  | cons c cs ih =>
    obtain ⟨⟨hspace, hproject⟩, hcs⟩ := List.forall_mem_cons.mp hcs
    obtain ⟨hlate, hlook⟩ := h.look limits
    simp only [List.map_cons, tryAll, hlate]
    split
    · exact .ok ⟨rfl, h⟩
    · split
      · exact .ok ⟨rfl, hlook⟩
      · change Alongside _ _ (if covered.gain c.coverage < limits.minContribution then _ else _)
        split
        · exact ih hlook hcs _ _
        · refine (tryCandidate_unspaced hdeep hunbiased hctx hlook hspace hproject flag).bind ?_
          rintro ⟨tried, s₁⟩ ⟨tried', s₁'⟩ ⟨htried, h₁⟩
          cases htried
          rw [hlook.length]
          cases tried with
          | none => exact ih (h₁.rollback _) hcs _ _
          | some tried =>
            simp only
            split
            · exact ih (h₁.rollback _) hcs _ _
            · exact ih h₁ hcs _ _

end steps

/-! ## Branches -/

variable {sources sources' : Sources α} {limits : Limits α} {space : String} {root : Context α}

/-- Models of one namespace are all preferred, or all not, and keep their order without it. -/
theorem lookup_alongside (hs : sources.Unspaces sources')
    (hspace : ∀ m, sources.Offers m → m.space = space) {ctx ctx' : Context α}
    (hctx : Descends space root ctx ctx') (o : Observable) (remainder : Coverage α) :
    ∃ flag, Alongside (fun found found' =>
        found'.list = found.list.map (Candidate.unspaced flag) ∧
        found'.notifications = found.notifications ∧
        ∀ c ∈ found.list, c.model.space = space ∧ c.model.project = none)
      (Candidate.lookup sources o ctx remainder) (Candidate.lookup sources' o ctx' remainder) := by
  refine ⟨ctx'.constraints.preferredNamespaces.contains "", ?_⟩
  rcases Candidate.lookup_unspaced hs hctx.scale hctx.excluded hctx.pinned o remainder with
    ⟨e, he, he'⟩ | ⟨ks, notifications, hfound, hfound', -, hks⟩
  · rw [he, he']
    exact .error e
  · have hsame : ∀ k ∈ ks, k.isPreferred = ctx.constraints.preferredNamespaces.contains space := by
      intro k hk
      obtain ⟨hoffers, -, hpreferred⟩ := hks k hk
      rw [hpreferred, Candidate.prefers, hspace _ hoffers, hs.unplaced _ hoffers]
      simp
    rw [hfound, hfound']
    refine .ok ⟨Candidate.arrange_unspaced hsame _, rfl, fun c hc => ?_⟩
    have hoffers := (hks c (mem_arrange.mp hc)).1
    exact ⟨hspace _ hoffers, hs.unplaced _ hoffers⟩

theorem conclude_unspaced {σ σ' : String} {s s' : SearchState α} (h : Mirrors σ σ' s s')
    (o : Observable) (accepted : List Nat) (covered : Coverage α) :
    SameResult σ σ' (conclude limits o accepted covered s)
      (conclude limits o accepted covered s') := by
  unfold conclude
  rw [h.timedOut]
  split
  · split
    · exact ⟨rfl, h⟩
    · exact ⟨rfl, h.notify _⟩
  · split
    · exact ⟨rfl, h⟩
    · exact ⟨rfl, h.notify _⟩

theorem candidates_unspaced {σ σ' : String} {deeper deeper' : Searcher α}
    (hs : sources.Unspaces sources') (hspace : ∀ m, sources.Offers m → m.space = space)
    (hdeep : Parallel σ σ' space root deeper deeper') (hunbiased : Unbiased deeper)
    {ctx ctx' : Context α} (hctx : Descends space root ctx ctx') {s s' : SearchState α}
    (h : Mirrors σ σ' s s') (o : Observable) :
    Alongside (SameResult σ σ') (candidates sources limits deeper o ctx s)
      (candidates sources' limits deeper' o ctx' s') := by
  unfold candidates
  rw [hctx.scale]
  obtain ⟨flag, hlookup⟩ := lookup_alongside hs hspace hctx o
    (.remainder ctx.scale (.empty ctx.scale))
  refine (hlookup.mapError _).bind fun found found' ⟨hlist, hnotifications, hfound⟩ => ?_
  have hstart : Mirrors σ σ' { s with notifications := s.notifications ++ found.notifications }
      { s' with notifications := s'.notifications ++ found'.notifications } :=
    { h with notifications := by simp [h.notifications, hnotifications] }
  rw [hlist]
  refine (tryAll_unspaced hdeep hunbiased hctx limits hstart hfound flag _ _).bind ?_
  rintro ⟨⟨accepted, covered⟩, s₁⟩ ⟨_, s₁'⟩ ⟨hsame, h₁⟩
  cases hsame
  exact .ok (conclude_unspaced h₁ o accepted covered)

variable (limits)

/-- Below a context, branches are searched alike. They are kept under keys whose ends are those of
the preferences. -/
theorem branch_unspaced (hs : sources.Unspaces sources')
    (hspace : ∀ m, sources.Offers m → m.space = space) (root : Context α) (remaining : Nat) :
    Parallel ("|" ++ preferenceKey (preferring space root).constraints)
      ("|" ++ preferenceKey root.constraints) space root (branch sources limits remaining)
      (branch sources' limits remaining) := by
  induction remaining with
  | zero =>
    intro o scale s s' h
    by_cases hpath : pathKey o scale ∈ s.path
    · simp only [branch, scale_atScale, h.path, hpath, if_true]
      exact .ok ⟨rfl, h.notify _⟩
    · simp only [branch, scale_atScale, h.path, hpath, if_false]
      exact .ok ⟨rfl, h.notify _⟩
  | succ remaining ih =>
    intro o scale s s' h
    by_cases hpath : pathKey o scale ∈ s.path
    · simp only [branch, scale_atScale, h.path, hpath, if_true]
      exact .ok ⟨rfl, h.notify _⟩
    · obtain ⟨kept, hkept, hkept'⟩ := h.kept
      have hsame : kept? limits o (root.atScale scale) s' =
          kept? limits o ((preferring space root).atScale scale) s := by
        simp only [kept?, branchKey_eq, scale_atScale, constraints_atScale, hkept, hkept',
          Keyed.get?_suffixed]
      obtain ⟨hlate, hlook⟩ := h.look limits
      simp only [branch, scale_atScale, h.path, hpath, if_false, hsame, hlate]
      split
      · exact .ok ⟨rfl, h⟩
      · split
        · exact .ok ⟨rfl, hlook⟩
        · simp only [fresh, scale_atScale, constraints_atScale, branchKey_eq]
          refine (candidates_unspaced hs hspace ih (branch_unbiased sources limits remaining)
            (.preferring space root scale) (hlook.enter _) o).bind ?_
          rintro ⟨b, s₁⟩ ⟨b', s₁'⟩ ⟨hb, h₁⟩
          cases hb
          simp only
          split
          · exact .ok ⟨rfl, (h₁.leave _).keep _ b⟩
          · exact .ok ⟨rfl, h₁.leave _⟩

/-- The observable asked for is searched alike, although its own branch is not kept under a key with
the preference. -/
theorem branch_unspaced_root (hs : sources.Unspaces sources')
    (hspace : ∀ m, sources.Offers m → m.space = space) (o : Observable) (root : Context α)
    (remaining : Nat) : Alongside (fun r r' => r'.1 = r.1 ∧
        r'.2.nodes = r.2.nodes.map Node.unspaced ∧ r'.2.notifications = r.2.notifications)
      (branch sources limits (remaining + 1) o root {})
      (branch sources' limits (remaining + 1) o root {}) := by
  have hnone : kept? limits o root {} = none := by
    unfold kept?
    split
    · rfl
    · rfl
  have hdeep := branch_unspaced limits hs hspace root remaining
  obtain ⟨-, hlook⟩ := (Mirrors.start (α := α)
    ("|" ++ preferenceKey (preferring space root).constraints)
    ("|" ++ preferenceKey root.constraints)).look limits
  simp only [branch, List.not_mem_nil, if_false, hnone]
  split
  · exact .ok ⟨rfl, hlook.nodes, hlook.notifications⟩
  · refine (candidates_unspaced hs hspace hdeep (branch_unbiased sources limits remaining)
      (.refl space root) (hlook.enter _) o).bind ?_
    rintro ⟨b, s₁⟩ ⟨b', s₁'⟩ ⟨hb, h₁⟩
    cases hb
    simp only
    split
    · exact .ok ⟨rfl, h₁.nodes, h₁.notifications⟩
    · exact .ok ⟨rfl, h₁.nodes, h₁.notifications⟩

end Search

/-- Models of one namespace and of no project resolve everything in the same way when they have no
namespace. -/
theorem Resolution.resolve_unspaced {sources sources' : Sources α}
    (hs : sources.Unspaces sources') (space : String)
    (hspace : ∀ m, sources.Offers m → m.space = space) (limits : Limits α) (o : Observable)
    (ctx : Context α) :
    resolve sources' limits o ctx = (resolve sources limits o ctx).map unspaced := by
  unfold resolve
  have hbranch := Search.branch_unspaced_root limits hs hspace o ctx limits.maxDepth
  generalize Search.branch sources limits (limits.maxDepth + 1) o ctx {} = found at hbranch
  generalize Search.branch sources' limits (limits.maxDepth + 1) o ctx {} = found' at hbranch
  cases hbranch with
  | error e => rfl
  | @ok r r' h =>
    obtain ⟨b, s⟩ := r
    obtain ⟨b', s'⟩ := r'
    obtain ⟨hb, hnodes, hnotifications⟩ := h
    cases hb
    simp only [bind, Except.bind, pure, Except.pure, Except.map, unspaced]
    rw [hnodes, hnotifications]

end Obsplan
