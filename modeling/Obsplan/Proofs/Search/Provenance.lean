import Obsplan.Proofs.Search.Frames

/-!
# Where nodes come from

Every node of a search stands for a dependency or was made for a candidate from what was found for
its dependencies. What is found for an observable are nodes of candidates for it, or for an
observable and context that are kept under the same key.
-/

namespace Obsplan.Search

variable {α : Type} [Coordinate α] {sources : Sources α} {root : Context α}
  {nodes nodes' : List (Node α)}

/-- The contexts that a search reaches. -/
inductive Derived (root : Context α) : Context α → Prop where
  | root : Derived root root
  | inner {ctx : Context α} {m : Model α} {d : Dependency α} :
      Derived root ctx → Derived root (inner m ctx d)

/-- The candidates that are tried for an observable. -/
def Ranked (sources : Sources α) (o : Observable) (ctx : Context α) (c : Candidate α) : Prop :=
  ∃ found, Candidate.lookup sources o ctx (.remainder ctx.scale (.empty ctx.scale)) = .ok found ∧
    c ∈ found.list

/-- Nodes of candidates, and the coverage they add up to. -/
inductive Accepted (sources : Sources α) (nodes : List (Node α)) (o : Observable)
    (ctx : Context α) : List Nat → Coverage α → Prop where
  | nil : Accepted sources nodes o ctx [] (.empty ctx.scale)
  | snoc {ids : List Nat} {id i : Nat} {covered coverage : Coverage α} {c : Candidate α}
      {links : List Link} : Accepted sources nodes o ctx ids covered → Ranked sources o ctx c →
      nodes[id]? = some ⟨i, o, ctx.scale, .model c.model, coverage, links⟩ →
      Accepted sources nodes o ctx (ids ++ [id]) (covered.merge coverage)

/-- What is found for an observable: nothing, or accepted nodes. -/
inductive Found (sources : Sources α) (root : Context α) (nodes : List (Node α)) (o : Observable)
    (ctx : Context α) : Branch α → Prop where
  | failed {outcome : Outcome} : Found sources root nodes o ctx (.failed outcome ctx.scale)
  | searched {o' : Observable} {ctx' : Context α} {b : Branch α} : Derived root ctx' →
      branchKey o' ctx'.scale ctx'.constraints = branchKey o ctx.scale ctx.constraints →
      Accepted sources nodes o' ctx' b.nodes b.coverage → Found sources root nodes o ctx b

/-- How a dependency is linked, and how that narrows the coverage. -/
inductive Linked (sources : Sources α) (root : Context α) (nodes : List (Node α)) (m : Model α)
    (ctx : Context α) (d : Dependency α) : Coverage α → Link → Coverage α → Prop where
  | standIn {means : Means α} {coverage covered : Coverage α} {id i : Nat} :
      StandsIn d (d.scale.getD ctx.scale) means covered →
      nodes[id]? = some ⟨i, d.observable, d.scale.getD ctx.scale, means, covered, []⟩ →
      Linked sources root nodes m ctx d coverage ⟨d.observable, [id]⟩ coverage
  | found {coverage : Coverage α} {b : Branch α} : d.deferred = false →
      Found sources root nodes d.observable (inner m ctx d) b → b.nodes ≠ [] →
      Linked sources root nodes m ctx d coverage ⟨d.observable, b.nodes⟩
        (narrowed d coverage b.coverage)

/-- How the dependencies of a model are linked in turn. -/
inductive LinkedAll (sources : Sources α) (root : Context α) (nodes : List (Node α)) (m : Model α)
    (ctx : Context α) : List (Dependency α) → Coverage α → List Link → Coverage α → Prop where
  | nil {coverage : Coverage α} : LinkedAll sources root nodes m ctx [] coverage [] coverage
  | cons {d : Dependency α} {ds : List (Dependency α)} {coverage coverage₁ coverage₂ : Coverage α}
      {link : Link} {links : List Link} :
      Linked sources root nodes m ctx d coverage link coverage₁ →
      LinkedAll sources root nodes m ctx ds coverage₁ links coverage₂ →
      LinkedAll sources root nodes m ctx (d :: ds) coverage (link :: links) coverage₂

/-- How a node is made after the nodes before it. -/
inductive Made (sources : Sources α) (root : Context α) (nodes : List (Node α)) : Node α → Prop where
  | standIn {ctx : Context α} {d : Dependency α} {means : Means α} {covered : Coverage α} {i : Nat} :
      Derived root ctx → StandsIn d (d.scale.getD ctx.scale) means covered →
      Made sources root nodes ⟨i, d.observable, d.scale.getD ctx.scale, means, covered, []⟩
  | model {o : Observable} {ctx : Context α} {c : Candidate α} {links : List Link}
      {coverage : Coverage α} {i : Nat} : Derived root ctx → Ranked sources o ctx c →
      LinkedAll sources root nodes c.model ctx c.model.dependencies c.coverage links coverage →
      coverage.shapes ≠ [] →
      Made sources root nodes ⟨i, o, ctx.scale, .model c.model, coverage, links⟩

/-! ## More and fewer nodes -/

theorem Accepted.extend {o : Observable} {ctx : Context α} {ids : List Nat} {covered : Coverage α}
    (hpre : nodes <+: nodes') (h : Accepted sources nodes o ctx ids covered) :
    Accepted sources nodes' o ctx ids covered := by
  induction h with
  | nil => exact .nil
  | snoc _ hc hn ih => exact .snoc ih hc (getElem?_extend hpre hn)

/-- Accepted nodes stay when others are dropped. -/
theorem Accepted.restrict {o : Observable} {ctx : Context α} {ids : List Nat}
    {covered : Coverage α} (hpre : nodes <+: nodes') (hids : ∀ i ∈ ids, i < nodes.length)
    (h : Accepted sources nodes' o ctx ids covered) : Accepted sources nodes o ctx ids covered := by
  obtain ⟨more, rfl⟩ := hpre
  induction h with
  | nil => exact .nil
  | snoc _ hc hn ih =>
    have hlt := hids _ (List.mem_append_right _ List.mem_cons_self)
    rw [List.getElem?_append_left hlt] at hn
    exact .snoc (ih fun i hi => hids i (List.mem_append_left _ hi)) hc hn

theorem Found.extend {o : Observable} {ctx : Context α} {b : Branch α} (hpre : nodes <+: nodes')
    (h : Found sources root nodes o ctx b) : Found sources root nodes' o ctx b := by
  cases h with
  | failed => exact .failed
  | searched hd hkey ha => exact .searched hd hkey (ha.extend hpre)

theorem Linked.extend {m : Model α} {ctx : Context α} {d : Dependency α} {link : Link}
    {coverage coverage' : Coverage α} (hpre : nodes <+: nodes')
    (h : Linked sources root nodes m ctx d coverage link coverage') :
    Linked sources root nodes' m ctx d coverage link coverage' := by
  cases h with
  | standIn hs hn => exact .standIn hs (getElem?_extend hpre hn)
  | found hd hf hb => exact .found hd (hf.extend hpre) hb

theorem LinkedAll.extend {m : Model α} {ctx : Context α} {ds : List (Dependency α)}
    {links : List Link} {coverage coverage' : Coverage α} (hpre : nodes <+: nodes')
    (h : LinkedAll sources root nodes m ctx ds coverage links coverage') :
    LinkedAll sources root nodes' m ctx ds coverage links coverage' := by
  induction h with
  | nil => exact .nil
  | cons hl _ ih => exact .cons (hl.extend hpre) ih

/-! ## Searches -/

variable {s s₁ s' : SearchState α}

/-- It is known where the nodes come from, and the kept branches. -/
structure Documented (sources : Sources α) (root : Context α) (s : SearchState α) : Prop where
  made : ∀ {i : Nat} {n : Node α}, s.nodes[i]? = some n → Made sources root (s.nodes.take i) n
  kept : ∀ e ∈ s.resolved.entries, ∃ o ctx, Derived root ctx ∧
    branchKey o ctx.scale ctx.constraints = e.1 ∧ Accepted sources s.nodes o ctx e.2.nodes e.2.coverage

namespace Documented

theorem congr (h : Documented sources root s) (hn : s'.nodes = s.nodes)
    (hr : s'.resolved = s.resolved) : Documented sources root s' :=
  ⟨fun hm => by rw [hn] at hm ⊢; exact h.made hm, by rw [hr, hn]; exact h.kept⟩

theorem push (h : Documented sources root s) {o : Observable} {scale : Scale α} {means : Means α}
    {coverage : Coverage α} {links : List Link}
    (hm : Made sources root s.nodes ⟨s.nodes.length, o, scale, means, coverage, links⟩) :
    Documented sources root (s.push o scale means coverage links).2 where
  made {i n} hn := by
    rcases getElem?_push hn with hn | ⟨rfl, rfl⟩
    · have hlt := (List.getElem?_eq_some_iff.mp hn).1
      rw [SearchState.nodes_push, List.take_append_of_le_length (Nat.le_of_lt hlt)]
      exact h.made hn
    · rw [SearchState.nodes_push, List.take_left' rfl]
      exact hm
  kept e he := by
    obtain ⟨o, ctx, hd, hkey, ha⟩ := h.kept e he
    exact ⟨o, ctx, hd, hkey, ha.extend (List.prefix_append _ _)⟩

theorem rollback {out : List Nat} (h : Documented sources root s₁) (he : Extends s s₁ out) :
    Documented sources root (s₁.rollback s.nodes.length) where
  made {i n} hn := by
    rw [he.nodes_rollback] at hn ⊢
    have hlt := (List.getElem?_eq_some_iff.mp hn).1
    obtain ⟨more, hmore⟩ := he.nodes
    have hmade := h.made (getElem?_extend he.nodes hn)
    rwa [← hmore, List.take_append_of_le_length (Nat.le_of_lt hlt)] at hmade
  kept e hmem := by
    obtain ⟨o, ctx, hd, hkey, ha⟩ := h.kept e (SearchState.mem_resolved_rollback hmem).1
    have hnodes : (s₁.rollback s.nodes.length).nodes <+: s₁.nodes := by
      rw [he.nodes_rollback]; exact he.nodes
    exact ⟨o, ctx, hd, hkey, ha.restrict hnodes (he.rollback.sound.kept e hmem)⟩

end Documented

/-- A searcher that documents what it does. -/
def Documenting (sources : Sources α) (root : Context α) (deeper : Searcher α) : Prop :=
  ∀ {o : Observable} {ctx : Context α} {s s' : SearchState α} {b : Branch α}, Sound s →
    Documented sources root s → Derived root ctx → deeper o ctx s = .ok (b, s') →
    Documented sources root s' ∧ Found sources root s'.nodes o ctx b

variable {deeper : Searcher α} {m : Model α} {o : Observable} {ctx : Context α} {c : Candidate α}

theorem linkStep_documented (hdoc : Documenting sources root deeper) (hs : Sound s)
    (hd : Documented sources root s) (hctx : Derived root ctx) {d : Dependency α}
    {coverage : Coverage α} {res : Option (Link × Coverage α)}
    (h : LinkStep deeper m ctx d coverage s res s') :
    Documented sources root s' ∧
      ∀ r ∈ res, Linked sources root s'.nodes m ctx d coverage r.1 r.2 := by
  cases h with
  | deferred hdef =>
    refine ⟨hd.push (.standIn hctx (.deferred hdef)), ?_⟩
    rintro _ ⟨⟩
    exact .standIn (.deferred hdef) List.getElem?_concat_length
  | found hdef hb hne =>
    obtain ⟨hd', hf⟩ := hdoc hs hd hctx.inner hb
    refine ⟨hd', ?_⟩
    rintro _ ⟨⟩
    exact .found hdef hf hne
  | @missing _ s₁ n _ _ _ hb _ hstands =>
    have hd₁ := (hdoc hs hd hctx.inner hb).1
    have hd₁ : Documented sources root (s₁.notify n) := hd₁.congr rfl rfl
    refine ⟨hd₁.push (.standIn hctx hstands), ?_⟩
    rintro _ ⟨⟩
    exact .standIn hstands List.getElem?_concat_length
  | refused _ hb => exact ⟨(hdoc hs hd hctx.inner hb).1.congr rfl rfl, by simp⟩

theorem linkRun_documented (hext : Extending deeper) (hdoc : Documenting sources root deeper)
    (hs : Sound s) (hd : Documented sources root s) (hctx : Derived root ctx)
    {ds : List (Dependency α)} {coverage : Coverage α} {res : Option (List Link × Coverage α)}
    (h : LinkRun deeper m o ctx ds coverage s res s') :
    Documented sources root s' ∧
      ∀ r ∈ res, LinkedAll sources root s'.nodes m ctx ds coverage r.1 r.2 := by
  induction h with
  | nil =>
    refine ⟨hd, ?_⟩
    rintro _ ⟨⟩
    exact .nil
  | cons hstep hrun ih =>
    have hs₁ := (linkStep_extends hext hs hstep).sound
    obtain ⟨hd₁, hl⟩ := linkStep_documented hdoc hs hd hctx hstep
    obtain ⟨hd', hls⟩ := ih hs₁ hd₁
    refine ⟨hd', ?_⟩
    rintro _ ⟨⟩
    exact .cons ((hl _ rfl).extend (linkRun_extends hext hs₁ hrun).nodes) (hls _ rfl)
  | refused hstep => exact ⟨(linkStep_documented hdoc hs hd hctx hstep).1, by simp⟩
  | refusedLater hstep _ ih =>
    have hs₁ := (linkStep_extends hext hs hstep).sound
    exact ⟨(ih hs₁ (linkStep_documented hdoc hs hd hctx hstep).1).1, by simp⟩

theorem trial_documented (hext : Extending deeper) (hdoc : Documenting sources root deeper)
    (hs : Sound s) (hd : Documented sources root s) (hctx : Derived root ctx)
    (hc : Ranked sources o ctx c) {res : Option (Nat × Coverage α)}
    (h : Trial deeper o ctx c s res s') :
    Documented sources root s' ∧ ∀ r ∈ res, ∃ i links,
      s'.nodes[r.1]? = some ⟨i, o, ctx.scale, .model c.model, r.2, links⟩ := by
  cases h with
  | refused hrun => exact ⟨(linkRun_documented hext hdoc hs hd hctx hrun).1, by simp⟩
  | uncovered hrun =>
    exact ⟨(linkRun_documented hext hdoc hs hd hctx hrun).1.congr rfl rfl, by simp⟩
  | made hrun hne =>
    obtain ⟨hd₁, hl⟩ := linkRun_documented hext hdoc hs hd hctx hrun
    refine ⟨hd₁.push (.model hctx hc (hl _ rfl) hne), ?_⟩
    rintro _ ⟨⟩
    exact ⟨_, _, List.getElem?_concat_length⟩

theorem tryRun_documented {limits : Limits α} (hext : Extending deeper)
    (hdoc : Documenting sources root deeper) (hs : Sound s) (hd : Documented sources root s)
    (hctx : Derived root ctx) {cs : List (Candidate α)} (hcs : ∀ c ∈ cs, Ranked sources o ctx c)
    {accepted : List Nat} {covered : Coverage α} {res : List Nat × Coverage α}
    (ha : Accepted sources s.nodes o ctx accepted covered)
    (hlt : ∀ i ∈ accepted, i < s.nodes.length)
    (h : TryRun limits deeper o ctx cs accepted covered s res s') :
    Documented sources root s' ∧ Accepted sources s'.nodes o ctx res.1 res.2 := by
  induction h with
  | nil => exact ⟨hd, ha⟩
  | complete => exact ⟨hd, ha⟩
  | @late _ _ _ s => exact ⟨hd.congr (by simp) (by simp), by simpa using ha⟩
  | @skipped _ _ _ _ s _ _ _ _ _ ih =>
    have hlook : Extends s (s.look limits).2 [] := hs.look
    exact ih hlook.sound (hd.congr (by simp) (by simp)) (fun c hc => hcs c (List.mem_cons_of_mem _ hc))
      (by simpa using ha) (by simpa using hlt)
  | @dropped _ _ _ _ s s₁ _ _ _ _ _ htrial _ _ ih =>
    have hlook : Extends s (s.look limits).2 [] := hs.look
    have hd₁ : Documented sources root (s.look limits).2 := hd.congr (by simp) (by simp)
    have he := hlook.trans (trial_extends hext hlook.sound htrial)
    have hd₂ := (trial_documented hext hdoc hlook.sound hd₁ hctx (hcs _ List.mem_cons_self) htrial).1
    exact ih he.rollback.sound (hd₂.rollback he) (fun c hc => hcs c (List.mem_cons_of_mem _ hc))
      (by rwa [he.nodes_rollback]) (by rwa [he.nodes_rollback])
  | @accepted _ _ _ _ _ id s s₁ _ _ _ _ htrial _ _ ih =>
    have hlook : Extends s (s.look limits).2 [] := hs.look
    have hd₁ : Documented sources root (s.look limits).2 := hd.congr (by simp) (by simp)
    have he : Extends s s₁ [id] := hlook.trans (trial_extends hext hlook.sound htrial)
    have hc := hcs _ List.mem_cons_self
    obtain ⟨hd₂, hmade⟩ := trial_documented hext hdoc hlook.sound hd₁ hctx hc htrial
    obtain ⟨i, links, hn⟩ := hmade _ rfl
    exact ih he.sound hd₂ (fun c hc => hcs c (List.mem_cons_of_mem _ hc))
      (.snoc (ha.extend he.nodes) hc hn) (he.found_append hlt)

theorem branchStep_documented {limits : Limits α} {remaining : Nat} {b : Branch α}
    (hdoc : ∀ n < remaining, Documenting sources root (branch sources limits n)) (hs : Sound s)
    (hd : Documented sources root s) (hctx : Derived root ctx)
    (h : BranchStep sources limits remaining o ctx s b s') :
    Documented sources root s' ∧ Found sources root s'.nodes o ctx b := by
  cases h with
  | cycle => exact ⟨hd.congr rfl rfl, .failed⟩
  | tooDeep => exact ⟨hd.congr rfl rfl, .failed⟩
  | late => exact ⟨hd.congr (by simp) (by simp), .failed⟩
  | kept _ hk =>
    simp only [kept?] at hk
    split at hk
    · obtain ⟨o', ctx', hd', hkey, ha⟩ := hd.kept _ (Keyed.mem_of_get? hk)
      exact ⟨hd, .searched hd' hkey ha⟩
    · cases hk
  | @searched remaining _ _ s s₁ found accepted covered _ _ hfound hrun =>
    have hd₁ : Documented sources root (entered limits o ctx found s) :=
      hd.congr (by simp [entered]) (by simp [entered])
    obtain ⟨hd₂, ha⟩ := tryRun_documented (branch_extends sources limits remaining)
      (hdoc remaining (Nat.lt_succ_self _)) (entered_sound hs) hd₁ hctx
      (fun c hc => ⟨found, hfound, hc⟩) .nil (by simp) hrun
    refine ⟨⟨?_, ?_⟩, .searched hctx rfl (by simpa [left] using ha)⟩
    · intro i n hn
      simp only [left, nodes_conclude] at hn ⊢
      exact hd₂.made hn
    · intro e hmem
      simp only [left, nodes_conclude, resolved_conclude] at hmem ⊢
      split at hmem
      · rcases Keyed.mem_insert hmem with rfl | hmem
        · exact ⟨o, ctx, hctx, rfl, by simpa using ha⟩
        · exact hd₂.kept e hmem
      · exact hd₂.kept e hmem

theorem branch_documented (sources : Sources α) (root : Context α) (limits : Limits α)
    (remaining : Nat) : Documenting sources root (branch sources limits remaining) := by
  induction remaining using Nat.strongRecOn with
  | ind remaining ih => exact fun hs hd hctx h => branchStep_documented ih hs hd hctx (branchStep h)

end Obsplan.Search

namespace Obsplan.Resolution

variable {α : Type} [Coordinate α] {sources : Sources α} {limits : Limits α} {o : Observable}
  {ctx : Context α} {r : Resolution α}

/-- It is known where all nodes of a resolution come from, and its roots. -/
theorem resolve_documented (h : resolve sources limits o ctx = .ok r) :
    (∀ {i : Nat} {n : Node α}, r.nodes[i]? = some n → Search.Made sources ctx (r.nodes.take i) n) ∧
      ∃ b, Search.Found sources ctx r.nodes o ctx b ∧ b.nodes = r.roots ∧
        b.coverage = r.coverage := by
  obtain ⟨b, s, hb, hnodes, hroots, hcoverage, -⟩ := resolve_branch h
  obtain ⟨hd, hf⟩ := Search.branch_documented sources ctx limits _ .start
    ⟨by simp, by simp [Keyed.empty]⟩ .root hb
  rw [hnodes]
  exact ⟨hd.made, b, hf, hroots.symm, hcoverage.symm⟩

end Obsplan.Resolution
