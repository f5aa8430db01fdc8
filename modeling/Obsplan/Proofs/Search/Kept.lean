import Obsplan.Proofs.Context.Layers
import Obsplan.Proofs.Search.Refusals

/-!
# Branches taken over

A branch is taken over from an earlier search of the same run that was kept under the same key. What
such a key tells are the observable, the scale and the preferences, as long as no preferred name
holds a sign that parts names; the empty name by itself is not told from no name. Main statement:
keys tell these apart, so a branch is taken over only where the same is preferred.
-/

namespace Obsplan

/-- The names that a model hands down to its dependencies hold no sign that would part them. -/
def Model.HandsDownSeparable {α : Type} [Coordinate α] (m : Model α) : Prop :=
  (',' ∉ m.space.toList ∧ '|' ∉ m.space.toList) ∧ ∀ p ∈ m.project, ',' ∉ p.toList

instance {α : Type} [Coordinate α] (m : Model α) : Decidable m.HandsDownSeparable :=
  inferInstanceAs (Decidable (_ ∧ _))

namespace Search

variable {α : Type} [Coordinate α]

/-! ## What keys tell -/

/-- Constraints whose preferred names hold no sign that parts them: a comma parts the names, and a
bar the namespaces from the projects. -/
structure Separable (cs : Constraints) : Prop where
  namespaces : ∀ n ∈ cs.preferredNamespaces, ',' ∉ n.toList ∧ '|' ∉ n.toList
  projects : ∀ p ∈ cs.preferredProjects, ',' ∉ p.toList

/-- The preferred names of two lists of constraints are the same, the empty one by itself not being
told from none. -/
structure SamePreferences (cs cs' : Constraints) : Prop where
  namespaces : SameNames cs.preferredNamespaces cs'.preferredNamespaces
  projects : SameNames cs.preferredProjects cs'.preferredProjects

section keys

variable {texts texts' : List String} {cs cs' : Constraints}

/-- Empty names are joined to no text. -/
theorem joined_of_empty (h : ∀ t ∈ texts, t = "") : joined texts = "" := by
  match texts with
  | [] => rfl
  | t :: texts =>
    have hset : TextSet.ofList (t :: texts) = TextSet.ofList [""] := by
      refine TextSet.ofList_congr fun u => ⟨fun hu => ?_, fun hu => ?_⟩
      · rw [h u hu]
        exact List.mem_singleton_self _
      · rw [List.mem_singleton.mp hu, ← h t List.mem_cons_self]
        exact List.mem_cons_self
    rw [joined, hset]
    rfl

theorem joined_of_sameNames (h : SameNames texts texts') : joined texts = joined texts' := by
  rcases h with hsame | hempty
  · rw [joined, joined, TextSet.ofList_congr hsame]
  · obtain ⟨htexts, htexts'⟩ := List.forall_mem_append.mp hempty
    rw [joined_of_empty htexts, joined_of_empty htexts']

theorem preferenceKey_eq_iff (h : Separable cs) (h' : Separable cs') :
    preferenceKey cs = preferenceKey cs' ↔ SamePreferences cs cs' := by
  constructor
  · intro heq
    obtain ⟨hn, hp⟩ := joined_of_preferenceKey (fun n hn => (h.namespaces n hn).2)
      (fun n hn => (h'.namespaces n hn).2) heq
    exact ⟨sameNames_of_joined (fun n hn => (h.namespaces n hn).1)
      (fun n hn => (h'.namespaces n hn).1) hn, sameNames_of_joined h.projects h'.projects hp⟩
  · rintro ⟨hn, hp⟩
    rw [preferenceKey, preferenceKey, joined_of_sameNames hn, joined_of_sameNames hp]

theorem branchKey_eq_iff [LegibleCoordinate α] {o o' : Observable} {scale scale' : Scale α}
    (h : Separable cs) (h' : Separable cs') : branchKey o scale cs = branchKey o' scale' cs' ↔
      o.key = o'.key ∧ scale.text = scale'.text ∧ SamePreferences cs cs' := by
  constructor
  · intro heq
    obtain ⟨hkey, rfl, hprefs⟩ := branchKey_injective heq
    exact ⟨hkey, rfl, (preferenceKey_eq_iff h h').mp hprefs⟩
  · rintro ⟨hkey, htext, hnames⟩
    rw [branchKey_eq, branchKey_eq, pathKey, pathKey, hkey, htext,
      (preferenceKey_eq_iff h h').mpr hnames]

end keys

/-! ## Searching in parts -/

section parts

variable {limits : Limits α} {deeper : Searcher α} {m : Model α} {o : Observable} {ctx : Context α}
  {c : Candidate α} {s s₁ s' : SearchState α}

/-- Some dependencies are linked, and then the others. -/
theorem linkAll_append {ds : List (Dependency α)} {links links' : List Link}
    {coverage coverage' : Coverage α}
    (h : linkAll deeper m o ctx ds links coverage s = .ok (some (links', coverage'), s₁))
    (more : List (Dependency α)) :
    linkAll deeper m o ctx (ds ++ more) links coverage s =
      linkAll deeper m o ctx more links' coverage' s₁ := by
  induction ds generalizing links coverage s with
  | nil =>
    cases h
    rfl
  | cons d ds ih =>
    match hl : linkDependency deeper m o ctx d coverage s with
    | .error e =>
      rw [linkAll, hl] at h
      cases h
    | .ok (none, s₂) =>
      rw [linkAll_refused hl] at h
      cases h
    | .ok (some (link, coverage₁), s₂) =>
      rw [linkAll_linked hl] at h
      rw [List.cons_append, linkAll_linked hl, ih h]

variable {accepted accepted' : List Nat} {covered covered' : Coverage α} {cs : List (Candidate α)}

/-- Whoever has seen that time is up sees it again. -/
theorem not_goesOn_look (h : (s.look limits).1 = true) :
    ¬ GoesOn limits covered (s.look limits).2 := by
  rintro ⟨-, hgo⟩
  have hout : (s.look limits).2.timedOut = true := by
    simp only [SearchState.look] at h ⊢
    split
    · assumption
    · split
      · rfl
      · simp_all
  rw [SearchState.look, if_pos hout] at hgo
  cases hgo

/-- Some candidates are tried, and the next one if that goes on. -/
theorem tryAll_concat
    (h : tryAll limits deeper o ctx cs accepted covered s = .ok ((accepted', covered'), s₁))
    (hgo : GoesOn limits covered' s₁) (more : List (Candidate α)) :
    tryAll limits deeper o ctx (cs ++ more) accepted covered s =
      tryAll limits deeper o ctx more accepted' covered' s₁ := by
  induction cs generalizing accepted covered s with
  | nil =>
    cases h
    rfl
  | cons c cs ih =>
    cases tryAll_cons h with
    | complete hcomplete => exact absurd (hcomplete.symm.trans hgo.1) (by decide)
    | late hlate => exact absurd hgo (not_goesOn_look hlate)
    | goesOn hgo₁ htried hrest => rw [List.cons_append, htried.tryAll hgo₁, ih hrest]

end parts

/-! ## Where kept branches come from -/

section runs

variable (sources : Sources α) (limits : Limits α) (start : Observable) (root : Context α)

/-- Every kept branch was found complete by a search that began on the way of the run, for an
observable and in a context that give it its key. -/
def Stems (s : SearchState α) : Prop :=
  ∀ e ∈ s.resolved.entries, ∃ n o ctx s₀ s₁, Begins sources limits start root n o ctx s₀ ∧
    kept? limits o ctx s₀ = none ∧ branch sources limits n o ctx s₀ = .ok (e.2, s₁) ∧
      e.2.outcome = .resolved ∧ branchKey o ctx.scale ctx.constraints = e.1

/-- Branches that may reach so many levels down are kept only as they are found. -/
def KeepsFound (n : Nat) : Prop :=
  ∀ {o : Observable} {ctx : Context α} {s s' : SearchState α} {b : Branch α},
    Begins sources limits start root n o ctx s → Stems sources limits start root s →
      branch sources limits n o ctx s = .ok (b, s') → Stems sources limits start root s'

end runs

variable {sources : Sources α} {limits : Limits α} {start : Observable} {root : Context α}
  {n : Nat} {o : Observable} {ctx : Context α} {c : Candidate α} {s s₀ s₁ s' : SearchState α}

namespace Stems

theorem initial : Stems sources limits start root ({} : SearchState α) := by
  simp [Stems, Keyed.empty]

theorem congr (h : Stems sources limits start root s) (hr : s'.resolved = s.resolved) :
    Stems sources limits start root s' := by
  intro e he
  rw [hr] at he
  exact h e he

theorem look (h : Stems sources limits start root s) :
    Stems sources limits start root (s.look limits).2 := h.congr (s.resolved_look limits)

theorem rollback (h : Stems sources limits start root s) (checkpoint : Nat) :
    Stems sources limits start root (s.rollback checkpoint) :=
  fun e he => h e (SearchState.mem_resolved_rollback he).1

theorem entered (h : Stems sources limits start root s) (found : Candidates α) :
    Stems sources limits start root (entered limits o ctx found s) :=
  h.congr (by simp [Search.entered])

/-- Only a branch that was searched through is kept anew. -/
theorem left {b : Branch α} (hbegins : Begins sources limits start root n o ctx s₀)
    (hkept : kept? limits o ctx s₀ = none) (hb : branch sources limits n o ctx s₀ = .ok (b, s₁))
    (h : Stems sources limits start root s) :
    Stems sources limits start root (left o ctx b s) := by
  intro e he
  simp only [Search.left] at he
  split at he
  · rename_i hresolved
    rcases Keyed.mem_insert he with rfl | he
    · exact ⟨n, o, ctx, s₀, s₁, hbegins, hkept, hb, hresolved, rfl⟩
    · exact h e he
  · exact h e he

end Stems

section steps

variable (hdeep : KeepsFound sources limits start root n)

include hdeep

theorem linkDependency_stems {before after : List (Dependency α)} {d : Dependency α}
    {links : List Link} {coverage : Coverage α} {res : Option (Link × Coverage α)}
    (htries : Tries sources limits start root n o ctx c s₀)
    (hdeps : c.model.dependencies = before ++ d :: after)
    (hlinked : linkAll (branch sources limits n) c.model o ctx before [] c.coverage s₀ =
      .ok (some (links, coverage), s)) (hs : Stems sources limits start root s)
    (h : linkDependency (branch sources limits n) c.model o ctx d coverage s = .ok (res, s')) :
    Stems sources limits start root s' := by
  cases linkStep h with
  | deferred => exact hs.congr rfl
  | found hdef hb => exact hdeep (.dependency htries hdeps hdef hlinked) hs hb
  | missing hdef hb => exact (hdeep (.dependency htries hdeps hdef hlinked) hs hb).congr rfl
  | refused hdef hb => exact (hdeep (.dependency htries hdeps hdef hlinked) hs hb).congr rfl

/-- The induction is on the dependencies that are linked next, those before them having been. -/
theorem linkAll_stems (htries : Tries sources limits start root n o ctx c s₀)
    {before after rest : List (Dependency α)} {links : List Link} {coverage : Coverage α}
    {res : Option (List Link × Coverage α)}
    (hdeps : c.model.dependencies = before ++ (after ++ rest))
    (hlinked : linkAll (branch sources limits n) c.model o ctx before [] c.coverage s₀ =
      .ok (some (links, coverage), s)) (hs : Stems sources limits start root s)
    (h : linkAll (branch sources limits n) c.model o ctx after links coverage s = .ok (res, s')) :
    Stems sources limits start root s' := by
  induction after generalizing before links coverage s with
  | nil =>
    cases h
    exact hs
  | cons d after ih =>
    match hl : linkDependency (branch sources limits n) c.model o ctx d coverage s with
    | .error e =>
      rw [linkAll, hl] at h
      cases h
    | .ok (none, s₁) =>
      rw [linkAll_refused hl] at h
      cases h
      exact linkDependency_stems hdeep htries hdeps hlinked hs hl
    | .ok (some (link, coverage₁), s₁) =>
      rw [linkAll_linked hl] at h
      have hnext := (linkAll_append hlinked [d]).trans (linkAll_linked hl)
      have hdeps' : c.model.dependencies = (before ++ [d]) ++ (after ++ rest) := by
        rw [hdeps, List.append_assoc, List.cons_append, List.singleton_append]
      exact ih hdeps' hnext (linkDependency_stems hdeep htries hdeps hlinked hs hl) h

theorem tryCandidate_stems {tried : Option (Nat × Coverage α)}
    (htries : Tries sources limits start root n o ctx c s) (hs : Stems sources limits start root s)
    (h : tryCandidate (branch sources limits n) o ctx c s = .ok (tried, s')) :
    Stems sources limits start root s' := by
  have hall : c.model.dependencies = [] ++ (c.model.dependencies ++ []) := by simp
  match hl : linkAll (branch sources limits n) c.model o ctx c.model.dependencies [] c.coverage
      s with
  | .error e =>
    rw [tryCandidate, hl] at h
    cases h
  | .ok (none, s₁) =>
    rw [tryCandidate_refused hl] at h
    cases h
    exact linkAll_stems hdeep htries hall rfl hs hl
  | .ok (some (links, coverage), s₁) =>
    have hs₁ := linkAll_stems hdeep htries hall rfl hs hl
    by_cases hempty : coverage.isEmpty = true
    · obtain ⟨note, hnote⟩ := tryCandidate_uncovered hl hempty
      rw [hnote] at h
      cases h
      exact hs₁.congr rfl
    · rw [tryCandidate_made hl (by simpa using hempty)] at h
      cases h
      exact hs₁.congr rfl

/-- The induction is on the candidates that are tried next, those before them having been. -/
theorem tryAll_stems {found : Candidates α}
    (hbegins : Begins sources limits start root (n + 1) o ctx s₀)
    (hpath : pathKey o ctx.scale ∉ s₀.path) (hkept : kept? limits o ctx s₀ = none)
    (hlook : (s₀.look limits).1 = false)
    (hfound : Candidate.lookup sources o ctx (.remainder ctx.scale (.empty ctx.scale)) = .ok found)
    {before after rest : List (Candidate α)} {accepted : List Nat} {covered : Coverage α}
    {res : List Nat × Coverage α} (hlist : found.list = before ++ (after ++ rest))
    (hbefore : tryAll limits (branch sources limits n) o ctx before [] (.empty ctx.scale)
      (entered limits o ctx found s₀) = .ok ((accepted, covered), s))
    (hs : Stems sources limits start root s)
    (h : tryAll limits (branch sources limits n) o ctx after accepted covered s = .ok (res, s')) :
    Stems sources limits start root s' := by
  induction after generalizing before accepted covered s with
  | nil =>
    cases h
    exact hs
  | cons c after ih =>
    cases tryAll_cons h with
    | complete => exact hs
    | late => exact hs.look
    | goesOn hgo htried hrest =>
      have hlist' : found.list = (before ++ [c]) ++ (after ++ rest) := by
        rw [hlist, List.append_assoc, List.cons_append, List.singleton_append]
      refine ih hlist' ((tryAll_concat hbefore hgo [c]).trans (htried.tryAll hgo [])) ?_ hrest
      have htries : ¬ covered.gain c.coverage < limits.minContribution →
          Tries sources limits start root n o ctx c (s.look limits).2 := fun hgain =>
        .candidate hbegins hpath hkept hlook hfound hlist hbefore hgo hgain
      cases htried with
      | skipped => exact hs.look
      | dropped hgain htry => exact (tryCandidate_stems hdeep (htries hgain) hs.look htry).rollback _
      | accepted hgain htry => exact tryCandidate_stems hdeep (htries hgain) hs.look htry

end steps

/-- What a branch keeps was found complete on the way of the run. -/
theorem branch_stems (sources : Sources α) (limits : Limits α) (start : Observable)
    (root : Context α) (n : Nat) : KeepsFound sources limits start root n := by
  induction n with
  | zero =>
    intro o ctx s s' b _ hs h
    cases branchStep h with
    | cycle => exact hs.congr rfl
    | tooDeep => exact hs.congr rfl
  | succ n ih =>
    intro o ctx s s' b hbegins hs h
    -- what is kept in the end stems from this very search
    have hb := h
    simp only [branch] at h
    split at h
    · cases h
      exact hs.congr rfl
    · rename_i hpath
      split at h
      · cases h
        exact hs
      · rename_i hkept
        split at h
        · cases h
          exact hs.look
        · rename_i hlate
          obtain ⟨found, accepted, covered, s₁, hfound, htried, rfl, rfl⟩ := fresh_tries h
          have hall : found.list = [] ++ (found.list ++ []) := by simp
          have hs₁ := tryAll_stems ih hbegins hpath hkept (by simpa using hlate) hfound hall rfl
            (hs.entered found) htried
          exact .left hbegins hkept hb (hs₁.congr (by simp))

mutual

theorem Begins.stems {n : Nat} {o : Observable} {ctx : Context α} {s : SearchState α}
    (h : Begins sources limits start root n o ctx s) : Stems sources limits start root s := by
  match h with
  | .start => exact .initial
  | .dependency htries hdeps _ hlinked =>
    have hdeep : KeepsFound sources limits start root n := branch_stems sources limits start root n
    have hdeps : _ = [] ++ (_ ++ _) := hdeps
    exact linkAll_stems hdeep htries hdeps rfl htries.stems hlinked

theorem Tries.stems {n : Nat} {o : Observable} {ctx : Context α} {c : Candidate α}
    {s : SearchState α} (h : Tries sources limits start root n o ctx c s) :
    Stems sources limits start root s := by
  match h with
  | .candidate hbegins hpath hkept hlook hfound hlist htried _ _ =>
    have hdeep : KeepsFound sources limits start root n := branch_stems sources limits start root n
    have hlist : _ = [] ++ (_ ++ _) := hlist
    exact (tryAll_stems hdeep hbegins hpath hkept hlook hfound hlist rfl (hbegins.stems.entered _)
      htried).look

end

/-! ## What is preferred where a branch is taken over -/

theorem Separable.inner {m : Model α} (h : Separable ctx.constraints) (hm : m.HandsDownSeparable)
    (d : Dependency α) : Separable (inner m ctx d).constraints :=
  ⟨forall_namespaces_inner h.namespaces (.inr hm.1) d, forall_projects_inner h.projects hm.2 d⟩

mutual

theorem Begins.separable {n : Nat} {o : Observable} {ctx : Context α} {s : SearchState α}
    (h : Begins sources limits start root n o ctx s) (hroot : Separable root.constraints)
    (hmodels : ∀ m, sources.Offers m → m.HandsDownSeparable) : Separable ctx.constraints := by
  match h with
  | .start => exact hroot
  | .dependency htries _ _ _ =>
    obtain ⟨hctx, hm⟩ := htries.separable hroot hmodels
    exact hctx.inner hm _

theorem Tries.separable {n : Nat} {o : Observable} {ctx : Context α} {c : Candidate α}
    {s : SearchState α} (h : Tries sources limits start root n o ctx c s)
    (hroot : Separable root.constraints) (hmodels : ∀ m, sources.Offers m → m.HandsDownSeparable) :
    Separable ctx.constraints ∧ c.model.HandsDownSeparable := by
  match h with
  | .candidate hbegins _ _ _ hfound hlist _ _ _ =>
    have hoffers : sources.Offers c.model := (Candidate.mem_lookup hfound (by simp [hlist])).1
    exact ⟨hbegins.separable hroot hmodels, hmodels _ hoffers⟩

end

/-- Keys tell observables and scales apart, and preferences as far as no name holds a sign that
parts names. So a branch is taken over only from a search for the same observable over the same
scale, under the same preferences, which found it complete. -/
theorem branchKey_separates [LegibleCoordinate α] (hroot : Separable root.constraints)
    (hmodels : ∀ m, sources.Offers m → m.HandsDownSeparable) :
    (∀ {o o' : Observable} {scale scale' : Scale α} {cs cs' : Constraints},
      branchKey o scale cs = branchKey o' scale' cs' → o.key = o'.key ∧ scale.text = scale'.text) ∧
    (∀ {o o' : Observable} {scale scale' : Scale α} {cs cs' : Constraints}, Separable cs →
      Separable cs' → (branchKey o scale cs = branchKey o' scale' cs' ↔
        o.key = o'.key ∧ scale.text = scale'.text ∧ SamePreferences cs cs')) ∧
    ∀ {n : Nat} {o : Observable} {ctx : Context α} {s : SearchState α} {b : Branch α},
      Begins sources limits start root n o ctx s → kept? limits o ctx s = some b →
      ∃ n' o' ctx' s₀ s₁, Begins sources limits start root n' o' ctx' s₀ ∧
        kept? limits o' ctx' s₀ = none ∧ branch sources limits n' o' ctx' s₀ = .ok (b, s₁) ∧
        b.outcome = .resolved ∧ o'.key = o.key ∧ ctx'.scale = ctx.scale ∧
        SamePreferences ctx'.constraints ctx.constraints := by
  refine ⟨fun heq => ?_, branchKey_eq_iff, fun {n o ctx s b} hbegins hkept => ?_⟩
  · obtain ⟨hkey, rfl, -⟩ := branchKey_injective heq
    exact ⟨hkey, rfl⟩
  · have hmem : (branchKey o ctx.scale ctx.constraints, b) ∈ s.resolved.entries := by
      simp only [kept?] at hkept
      split at hkept
      · exact Keyed.mem_of_get? hkept
      · cases hkept
    obtain ⟨n', o', ctx', s₀, s₁, hbegins', hkept', hb, hresolved, heq⟩ := hbegins.stems _ hmem
    obtain ⟨hkey, hscale, -⟩ := branchKey_injective heq
    have hsame := (branchKey_eq_iff (hbegins'.separable hroot hmodels)
      (hbegins.separable hroot hmodels)).mp heq
    exact ⟨n', o', ctx', s₀, s₁, hbegins', hkept', hb, hresolved, hkey, hscale, hsame.2.2⟩

open Resolution

instance (cs : Constraints) : Decidable (Separable cs) :=
  decidable_of_iff ((∀ n ∈ cs.preferredNamespaces, ',' ∉ n.toList ∧ '|' ∉ n.toList) ∧
    ∀ p ∈ cs.preferredProjects, ',' ∉ p.toList) ⟨fun h => ⟨h.1, h.2⟩, fun h => ⟨h.1, h.2⟩⟩

/-- While soil is tried below land, water is taken over from where it was found for land. -/
theorem branchKey_separates_circling :
    Separable everywhere.constraints ∧ (∀ m, circling.Offers m → m.HandsDownSeparable) ∧
    ∃ o ctx s b, Begins circling ({} : Config).limits land everywhere 31 o ctx s ∧
      o.urn = "t:Water" ∧ kept? ({} : Config).limits o ctx s = some b ∧
      ∃ n' o' ctx' s₀ s₁, Begins circling ({} : Config).limits land everywhere n' o' ctx' s₀ ∧
        kept? ({} : Config).limits o' ctx' s₀ = none ∧
        branch circling ({} : Config).limits n' o' ctx' s₀ = .ok (b, s₁) ∧
        b.outcome = .resolved ∧ o'.key = o.key ∧ ctx'.scale = ctx.scale ∧
        SamePreferences ctx'.constraints ctx.constraints := by
  let limits := ({} : Config).limits
  have hroot : Separable everywhere.constraints := by decide
  have hmodels : ∀ m, circling.Offers m → m.HandsDownSeparable := by
    have hall : ∀ m ∈ (Catalog.empty.insertAll [needing "x.land" land [water, soil],
        needing "x.soil" soil [water, rock, land], needing "x.rock" rock [],
        needing "x.water" water []]).1.models.values, m.HandsDownSeparable := by decide +kernel
    exact fun m hm => hall m (Catalog.mem_values_of_offers hm)
  obtain ⟨t, ht, ⟨d, s⟩, hd, t', ht', ⟨d', s'⟩, hd', hwater, hsome⟩ :
      ∃ t ∈ firstTrial? circling limits land everywhere {},
      ∃ d ∈ nextSearch? circling limits 32 land everywhere t.2 t.1 1,
      ∃ t' ∈ firstTrial? circling limits d.1.observable (inner t.1.model everywhere d.1) d.2,
      ∃ d' ∈ nextSearch? circling limits 31 d.1.observable (inner t.1.model everywhere d.1)
        t'.2 t'.1 0, d'.1.observable.urn = "t:Water" ∧
      (kept? limits d'.1.observable (inner t'.1.model (inner t.1.model everywhere d.1) d'.1)
        d'.2).isSome = true := by decide +kernel
  have hland : Begins circling limits land everywhere 33 land everywhere {} := .start
  have hsoil := (hland.tries_first ht).begins_next hd
  have hbegins := (hsoil.tries_first ht').begins_next hd'
  obtain ⟨b, hb⟩ := Option.isSome_iff_exists.mp hsome
  exact ⟨hroot, hmodels, _, _, _, b, hbegins, hwater, hb,
    (branchKey_separates hroot hmodels).2.2 hbegins hb⟩

def sand : Observable := { concept := ⟨"t:Sand", by decide⟩ }

/-- Soil prefers the namespace `g,h`, and sand below rock the namespaces `g` and `h`. -/
def blended : Sources Number :=
  knowing [needing "land" land [soil, rock], needing "g,h.soil" soil [water],
    needing "g.rock" rock [sand], needing "h.sand" sand [water], needing "g,h.water" water [],
    needing "g.water" water []]

/-- Rock prefers the project without a name, and soil none. -/
def nameless : Sources Number :=
  knowing [needing "land" land [soil, rock], needing "soil" soil [water],
    { needing "rock" rock [water] with project := some "" }, needing "a.water" water [],
    { needing "b.water" water [] with project := some "" }]

/-- Constraints that prefer namespaces and projects. -/
def preferringNames (namespaces projects : List String) : Constraints :=
  .ofList (namespaces.map .preferNamespace ++ projects.map .preferProject)

/-- The models that a search uses, with and without using branches again. -/
theorem resolve_both {sources : Sources Number} {urns urns₀ : List String}
    (h : ((resolve sources ({} : Config).limits land everywhere).toOption.any fun r =>
      decide (r.models.map Model.urn = urns)) = true)
    (h₀ : ((resolve sources (Resolution.fresh ({} : Config).limits) land everywhere).toOption.any
      fun r => decide (r.models.map Model.urn = urns₀)) = true) :
    ∃ r r₀, resolve sources ({} : Config).limits land everywhere = .ok r ∧
      resolve sources (Resolution.fresh ({} : Config).limits) land everywhere = .ok r₀ ∧
      r.models.map Model.urn = urns ∧ r₀.models.map Model.urn = urns₀ := by
  obtain ⟨r, hr, hurns⟩ := exists_of_any h
  obtain ⟨r₀, hr₀, hurns₀⟩ := exists_of_any h₀
  exact ⟨r, r₀, hr, hr₀, hurns, hurns₀⟩

/-- Different preferences share a key when a name holds a comma or a namespace a bar, and when only
the empty name is preferred. Water is then taken over where another model of it is preferred. -/
theorem branchKey_confuses :
    (branchKey water everywhere.scale (preferringNames ["g,h"] []) =
        branchKey water everywhere.scale (preferringNames ["g", "h"] []) ∧
      (preferringNames ["g,h"] []).preferredNamespaces = ["g,h"] ∧
      (preferringNames ["g", "h"] []).preferredNamespaces = ["g", "h"]) ∧
    (branchKey water everywhere.scale (preferringNames ["a|b"] []) =
        branchKey water everywhere.scale (preferringNames ["a"] ["b|"]) ∧
      (preferringNames ["a|b"] []).preferredNamespaces = ["a|b"] ∧
      (preferringNames ["a"] ["b|"]).preferredNamespaces = ["a"]) ∧
    (branchKey water everywhere.scale (preferringNames [] [""]) =
        branchKey water everywhere.scale (preferringNames [] []) ∧
      (preferringNames [] [""]).preferredProjects = [""] ∧
      (preferringNames [] []).preferredProjects = []) ∧
    (∃ r r₀, resolve blended ({} : Config).limits land everywhere = .ok r ∧
      resolve blended (Resolution.fresh ({} : Config).limits) land everywhere = .ok r₀ ∧
      r.models.map Model.urn = ["g,h.water", "g,h.soil", "h.sand", "g.rock", "land"] ∧
      r₀.models.map Model.urn =
        ["g,h.water", "g,h.soil", "g.water", "h.sand", "g.rock", "land"]) ∧
    ∃ r r₀, resolve nameless ({} : Config).limits land everywhere = .ok r ∧
      resolve nameless (Resolution.fresh ({} : Config).limits) land everywhere = .ok r₀ ∧
      r.models.map Model.urn = ["a.water", "soil", "rock", "land"] ∧
      r₀.models.map Model.urn = ["a.water", "soil", "b.water", "rock", "land"] := by
  refine ⟨by decide +kernel, by decide +kernel, by decide +kernel, ?_, ?_⟩
  · exact resolve_both (by decide +kernel) (by decide +kernel)
  · exact resolve_both (by decide +kernel) (by decide +kernel)

end Search

end Obsplan
