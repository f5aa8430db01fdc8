import Obsplan.Proofs.Search.Frames

/-!
# Levels

A node is on the level of the branch that made it, which is how many dependencies were followed down
to that branch. Every node that is kept is linked from a node one level further up, and a model is
never made further down than the limit. A branch that is taken over brings nodes of other levels
along; only a search that takes none over links level by level.
-/

namespace Obsplan

variable {α : Type} [Coordinate α]

theorem Refers.restrict {nodes nodes' : List (Node α)} {i j : Nat} (h : nodes <+: nodes')
    (hi : i < nodes.length) (hr : Refers nodes' i j) : Refers nodes i j := by
  obtain ⟨n, hn, hj⟩ := hr
  have hold : nodes[i]? = some nodes[i] := List.getElem?_eq_getElem hi
  have hsame := (getElem?_extend h hold).symm.trans hn
  rw [Option.some.injEq] at hsame
  exact ⟨n, hsame ▸ hold, hj⟩

namespace Search

variable {limits : Limits α} {top : Nat} {s s₁ s' : SearchState α} {v v₁ v' : Nat → Nat}
  {out out₁ : List Nat}

/-- What a part of the search on the level `top` adds: nodes that it found on that level, or that
are linked from the level above theirs. -/
structure Levelled (limits : Limits α) (top : Nat) (s : SearchState α) (v : Nat → Nat)
    (s' : SearchState α) (v' : Nat → Nat) (out : List Nat) : Prop where
  same : ∀ i < s.nodes.length, v' i = v i
  bounded : ∀ {i : Nat} {n : Node α}, s.nodes.length ≤ i → s'.nodes[i]? = some n → n.IsModel →
    v' i ≤ limits.maxDepth
  linked : ∀ i < s'.nodes.length, s.nodes.length ≤ i →
    (i ∈ out ∧ v' i = top) ∨ ∃ j, Refers s'.nodes j i ∧ v' i = v' j + 1
  found : limits.reuses = false → ∀ i ∈ out, v' i = top
  descends : limits.reuses = false → ∀ {i j : Nat}, s.nodes.length ≤ i → Refers s'.nodes i j →
    v' j = v' i + 1

namespace Levelled

theorem refl (hout : limits.reuses = false → ∀ i ∈ out, v i = top) :
    Levelled limits top s v s v out where
  same _ _ := rfl
  bounded hle hn := by
    have := (List.getElem?_eq_some_iff.mp hn).1
    omega
  linked i hi hle := by omega
  found := hout
  descends _ _ _ hle hr := by
    have := hr.lt_length
    omega

theorem trans (h : Levelled limits top s v s₁ v₁ out) (h₁ : Levelled limits top s₁ v₁ s' v' out₁)
    (he : Extends s s₁ out) (he₁ : Extends s₁ s' out₁) :
    Levelled limits top s v s' v' (out ++ out₁) where
  same i hi := (h₁.same i (Nat.lt_of_lt_of_le hi he.nodes.length_le)).trans (h.same i hi)
  bounded {i n} hle hn hm := by
    by_cases hlt : i < s₁.nodes.length
    · obtain ⟨m, hm₁⟩ : ∃ m, s₁.nodes[i]? = some m := ⟨_, List.getElem?_eq_getElem hlt⟩
      have hsame := getElem?_extend he₁.nodes hm₁
      rw [hn, Option.some.injEq] at hsame
      rw [h₁.same i hlt]
      exact h.bounded hle (hsame ▸ hm₁) hm
    · exact h₁.bounded (by omega) hn hm
  linked i hi hle := by
    by_cases hlt : i < s₁.nodes.length
    · rw [h₁.same i hlt]
      obtain ⟨ho, hv⟩ | ⟨j, hj, hv⟩ := h.linked i hlt hle
      · exact .inl ⟨List.mem_append_left _ ho, hv⟩
      · exact .inr ⟨j, hj.extend he₁.nodes, by rw [h₁.same j hj.lt_length, hv]⟩
    · obtain ⟨ho, hv⟩ | hj := h₁.linked i hi (by omega)
      · exact .inl ⟨List.mem_append_right _ ho, hv⟩
      · exact .inr hj
  found hfresh i hi := by
    rcases List.mem_append.mp hi with hi | hi
    · rw [h₁.same i (he.found i hi)]
      exact h.found hfresh i hi
    · exact h₁.found hfresh i hi
  descends hfresh i j hle hr := by
    by_cases hlt : i < s₁.nodes.length
    · have hr := hr.restrict he₁.nodes hlt
      have hj := he.sound.ordered.descending hr
      rw [h₁.same i hlt, h₁.same j (Nat.lt_trans hj hlt)]
      exact h.descends hfresh hle hr
    · exact h₁.descends hfresh (by omega) hr

/-- Only the nodes matter. -/
theorem congr (h : Levelled limits top s₁ v s' v' out) (hn : s.nodes = s₁.nodes) :
    Levelled limits top s v s' v' out :=
  ⟨by simpa [hn] using h.same, fun hle => h.bounded (hn ▸ hle), by simpa [hn] using h.linked,
    h.found, fun hfresh _ _ hle => h.descends hfresh (hn ▸ hle)⟩

theorem congr' (h : Levelled limits top s v s₁ v' out) (hn : s'.nodes = s₁.nodes) :
    Levelled limits top s v s' v' out :=
  ⟨h.same, fun hle hm => h.bounded hle (hn ▸ hm), by simpa [hn] using h.linked, h.found,
    fun hfresh _ _ hle hr => h.descends hfresh hle (hn ▸ hr)⟩

theorem mono (h : Levelled limits top s v s' v' out) (hout : ∀ i, i ∈ out ↔ i ∈ out₁) :
    Levelled limits top s v s' v' out₁ :=
  ⟨h.same, h.bounded, fun i hi hle => (h.linked i hi hle).imp_left (And.imp_left (hout i).mp),
    fun hfresh i hi => h.found hfresh i ((hout i).mpr hi), h.descends⟩

/-- The node that is made when everything it refers to was found one level further down. -/
theorem push {o : Observable} {scale : Scale α} {means : Means α} {coverage : Coverage α}
    {links : List Link} (h : Levelled limits (top + 1) s v s₁ v₁ (links.flatMap Link.nodes))
    (he : Extends s s₁ (links.flatMap Link.nodes))
    (hmeans : (∃ m, means = .model m) → top ≤ limits.maxDepth) :
    Levelled limits top s v (s₁.push o scale means coverage links).2
      (Function.update v₁ s₁.nodes.length top) [s₁.nodes.length] := by
  have hle := he.nodes.length_le
  have hold : ∀ {i : Nat}, i < s₁.nodes.length →
      Function.update v₁ s₁.nodes.length top i = v₁ i :=
    fun hi => Function.update_of_ne (Nat.ne_of_lt hi) _ _
  have hnew : Function.update v₁ s₁.nodes.length top s₁.nodes.length = top :=
    Function.update_self _ _ _
  have hpre : s₁.nodes <+: (s₁.push o scale means coverage links).2.nodes := List.prefix_append _ _
  refine ⟨?_, ?_, ?_, ?_, ?_⟩
  · intro i hi
    rw [hold (by omega)]
    exact h.same i hi
  · intro i n hge hn hm
    rcases getElem?_push hn with hn | ⟨rfl, rfl⟩
    · rw [hold (List.getElem?_eq_some_iff.mp hn).1]
      exact h.bounded hge hn hm
    · rw [hnew]
      exact hmeans hm
  · intro i hi hge
    simp only [SearchState.nodes_push, List.length_append, List.length_singleton] at hi
    by_cases hlt : i < s₁.nodes.length
    · rw [hold hlt]
      obtain ⟨ho, hv⟩ | ⟨j, hj, hv⟩ := h.linked i hlt hge
      · exact .inr ⟨s₁.nodes.length, ⟨_, List.getElem?_concat_length, ho⟩, by rw [hnew, hv]⟩
      · exact .inr ⟨j, hj.extend hpre, by rw [hold hj.lt_length, hv]⟩
    · obtain rfl : i = s₁.nodes.length := by omega
      exact .inl ⟨List.mem_cons_self, hnew⟩
  · intro _ i hi
    rw [List.mem_singleton.mp hi, hnew]
  · intro hfresh i j hge hr
    by_cases hlt : i < s₁.nodes.length
    · have hr := hr.restrict hpre hlt
      have hj := he.sound.ordered.descending hr
      rw [hold hlt, hold (Nat.lt_trans hj hlt)]
      exact h.descends hfresh hge hr
    · obtain ⟨n, hn, hj⟩ := hr
      obtain hn | ⟨rfl, rfl⟩ := getElem?_push hn
      · exact absurd (List.getElem?_eq_some_iff.mp hn).1 hlt
      · rw [hnew, hold (he.found j hj)]
        exact h.found hfresh j hj

theorem standIn (hs : Sound s) {o : Observable} {scale : Scale α} {means : Means α}
    {coverage : Coverage α} (hm : ∀ m, means ≠ .model m) :
    ∃ v', Levelled limits top s v (s.push o scale means coverage []).2 v' [s.nodes.length] :=
  ⟨_, push (refl (by simp)) (.refl hs) fun ⟨m, hmodel⟩ => absurd hmodel (hm m)⟩

end Levelled

/-! ## What the parts of the search add -/

/-- A searcher that adds nodes on a level and below. -/
def AddsLevels (limits : Limits α) (top : Nat) (deeper : Searcher α) : Prop :=
  ∀ {o : Observable} {ctx : Context α} {s s' : SearchState α} {v : Nat → Nat} {b : Branch α},
    Sound s → deeper o ctx s = .ok (b, s') → ∃ v', Levelled limits top s v s' v' b.nodes

variable {deeper : Searcher α} {m : Model α} {o : Observable} {ctx : Context α} {c : Candidate α}

theorem linkStep_levels (hext : Extending deeper) (hadds : AddsLevels limits top deeper)
    (hs : Sound s) {d : Dependency α} {coverage coverage' : Coverage α} {link : Link}
    (h : LinkStep deeper m ctx d coverage s (some (link, coverage')) s') :
    ∃ v', Levelled limits top s v s' v' link.nodes := by
  cases h with
  | deferred => exact Levelled.standIn hs (by simp)
  | found _ hb _ => exact hadds hs hb
  | @missing b s₁ n means _ _ hb hn hstands =>
    have he := hext hs hb
    obtain ⟨v₁, h₁⟩ := hadds (v := v) hs hb
    rw [hn] at he h₁
    have he : Extends s (s₁.notify n) [] := he.congr rfl rfl rfl
    have h₁ : Levelled limits top s v (s₁.notify n) v₁ [] := h₁.congr' rfl
    have hmeans : ∀ m, means ≠ .model m := by cases hstands <;> simp
    obtain ⟨v', h'⟩ := Levelled.standIn he.sound hmeans
    exact ⟨v', h₁.trans h' he (.push he.sound (by simp))⟩

theorem linkRun_levels (hext : Extending deeper) (hadds : AddsLevels limits top deeper)
    (hs : Sound s) {ds : List (Dependency α)} {coverage coverage' : Coverage α}
    {links : List Link} {res : Option (List Link × Coverage α)}
    (h : LinkRun deeper m o ctx ds coverage s res s') (hres : res = some (links, coverage')) :
    ∃ v', Levelled limits top s v s' v' (links.flatMap Link.nodes) := by
  induction h generalizing v links coverage' with
  | nil => cases hres; exact ⟨v, .refl (by simp)⟩
  | cons hstep hrun ih =>
    cases hres
    have he := linkStep_extends hext hs hstep
    obtain ⟨v₁, h₁⟩ := linkStep_levels hext hadds hs hstep
    obtain ⟨v', h'⟩ := ih he.sound rfl
    exact ⟨v', h₁.trans h' he (linkRun_extends hext he.sound hrun)⟩
  | refused => cases hres
  | refusedLater => cases hres

theorem trial_levels (hext : Extending deeper) (hadds : AddsLevels limits (top + 1) deeper)
    (htop : top ≤ limits.maxDepth) (hs : Sound s) {id : Nat} {coverage : Coverage α}
    (h : Trial deeper o ctx c s (some (id, coverage)) s') :
    ∃ v', Levelled limits top s v s' v' [id] := by
  cases h with
  | made hrun _ =>
    obtain ⟨v₁, h₁⟩ := linkRun_levels hext hadds hs hrun rfl
    exact ⟨_, h₁.push (linkRun_extends hext hs hrun) fun _ => htop⟩

theorem tryRun_levels (hext : Extending deeper) (hadds : AddsLevels limits (top + 1) deeper)
    (htop : top ≤ limits.maxDepth) (hs : Sound s) {cs : List (Candidate α)} {accepted : List Nat}
    {covered : Coverage α} {res : List Nat × Coverage α} (ha : ∀ i ∈ accepted, i < s.nodes.length)
    (hv : limits.reuses = false → ∀ i ∈ accepted, v i = top)
    (h : TryRun limits deeper o ctx cs accepted covered s res s') :
    ∃ v', Levelled limits top s v s' v' res.1 := by
  induction h generalizing v with
  | nil => exact ⟨v, .refl hv⟩
  | complete => exact ⟨v, .refl hv⟩
  | late => exact ⟨v, (Levelled.refl hv).congr' (by simp)⟩
  | @skipped _ _ _ _ s _ _ _ _ _ ih =>
    have he : Extends s (s.look limits).2 [] := hs.look
    obtain ⟨v', h'⟩ := ih he.sound (by simpa using ha) hv
    exact ⟨v', h'.congr (by simp)⟩
  | @dropped _ _ _ _ s s₁ _ _ _ _ _ htrial _ _ ih =>
    have hlook : Extends s (s.look limits).2 [] := hs.look
    have he := hlook.trans (trial_extends hext hlook.sound htrial)
    have hnodes := he.nodes_rollback
    obtain ⟨v', h'⟩ := ih he.rollback.sound (by rwa [hnodes]) hv
    exact ⟨v', h'.congr hnodes.symm⟩
  | @accepted _ _ before _ _ id s s₁ _ _ _ _ htrial _ hrun ih =>
    have hlook : Extends s (s.look limits).2 [] := hs.look
    have he : Extends s s₁ [id] := hlook.trans (trial_extends hext hlook.sound htrial)
    obtain ⟨v₁, h₁⟩ := trial_levels (v := v) hext hadds htop hlook.sound htrial
    have h₁ : Levelled limits top s v s₁ v₁ [id] := h₁.congr (by simp)
    have ha₁ := he.found_append ha
    have hv₁ : limits.reuses = false → ∀ i ∈ before ++ [id], v₁ i = top := by
      intro hfresh i hi
      rcases List.mem_append.mp hi with hi | hi
      · rw [h₁.same i (ha i hi), hv hfresh i hi]
      · exact h₁.found hfresh i hi
    obtain ⟨v', h'⟩ := ih he.sound ha₁ hv₁
    refine ⟨v', (h₁.trans h' he (tryRun_extends hext he.sound ha₁ hrun)).mono fun i => ?_⟩
    refine ⟨fun hi => ?_, List.mem_append_right _⟩
    rcases List.mem_append.mp hi with hi | hi
    · exact tryRun_accepted hrun i (List.mem_append_right _ hi)
    · exact hi

theorem branchStep_levels {sources : Sources α} {remaining : Nat} {b : Branch α}
    (hlevel : top + remaining = limits.maxDepth + 1)
    (hadds : ∀ n < remaining, ∀ top, top + n = limits.maxDepth + 1 →
      AddsLevels limits top (branch sources limits n))
    (hs : Sound s) (h : BranchStep sources limits remaining o ctx s b s') :
    ∃ v', Levelled limits top s v s' v' b.nodes := by
  cases h with
  | cycle => exact ⟨v, (Levelled.refl (by simp [Branch.failed])).congr' rfl⟩
  | tooDeep => exact ⟨v, (Levelled.refl (by simp [Branch.failed])).congr' rfl⟩
  | kept _ hk =>
    refine ⟨v, .refl fun hfresh => ?_⟩
    simp [kept?, hfresh] at hk
  | late => exact ⟨v, (Levelled.refl (by simp [Branch.failed])).congr' (by simp)⟩
  | @searched remaining _ _ s s₁ found _ _ hpath _ _ hrun =>
    obtain ⟨v', h'⟩ := tryRun_levels (v := v) (branch_extends sources limits remaining)
      (hadds remaining (Nat.lt_succ_self _) (top + 1) (by omega)) (by omega) (entered_sound hs)
      (by simp) (by simp) hrun
    have h' : Levelled limits top s v s₁ v' _ := h'.congr (by simp [entered])
    exact ⟨v', (h'.congr' (by simp [left])).mono (by simp)⟩

theorem branch_levels (sources : Sources α) (limits : Limits α) (remaining : Nat) :
    ∀ top, top + remaining = limits.maxDepth + 1 →
      AddsLevels limits top (branch sources limits remaining) := by
  induction remaining using Nat.strongRecOn with
  | ind remaining ih =>
    intro top hlevel o ctx s s' v b hs h
    exact branchStep_levels hlevel ih hs (branchStep h)

end Search

end Obsplan
