import Mathlib.Data.List.Perm.Subperm
import Mathlib.Logic.Relation
import Mathlib.Order.Lattice.Nat
import Obsplan.Taxonomy

/-!
# Walking down a taxonomy

A walk follows the concepts of a queue until nothing is left of it. What it met then is closed under
the facts, each concept was met once, and the concepts come by their distance from the start.
-/

namespace Obsplan.Taxonomy

open Relation

variable {t : Taxonomy} {c g k p s : Concept} {n : Nat} {seen done queue out : List Concept}

/-- The first concept is a kind of the second one by a fact. -/
def IsA (t : Taxonomy) (k p : Concept) : Prop := (k, p) ∈ t.facts

/-! ## Distances -/

/-- A chain of facts leads up from one concept to another one. -/
inductive Leads (t : Taxonomy) : Nat → Concept → Concept → Prop where
  | refl (c : Concept) : Leads t 0 c c
  | step {n : Nat} {k p g : Concept} : t.IsA k p → Leads t n p g → Leads t (n + 1) k g

theorem Leads.reaches (h : t.Leads n s g) : ReflTransGen t.IsA s g := by
  induction h with
  | refl => exact .refl
  | step hfact _ ih => exact .head hfact ih

theorem exists_leads (h : ReflTransGen t.IsA s g) : ∃ n, t.Leads n s g := by
  induction h using ReflTransGen.head_induction_on with
  | refl => exact ⟨0, .refl g⟩
  | head hfact _ ih =>
    obtain ⟨n, hn⟩ := ih
    exact ⟨n + 1, .step hfact hn⟩

/-- The number of facts in a shortest chain from a concept up to `g`. -/
noncomputable def distance (t : Taxonomy) (g s : Concept) : Nat := sInf {n | t.Leads n s g}

theorem leads_distance (h : ReflTransGen t.IsA s g) : t.Leads (t.distance g s) s g :=
  Nat.sInf_mem (exists_leads h)

theorem distance_le (h : t.Leads n s g) : t.distance g s ≤ n := Nat.sInf_le h

theorem distance_le_of_isA (hfact : t.IsA k p) (h : ReflTransGen t.IsA p g) :
    t.distance g k ≤ t.distance g p + 1 :=
  distance_le (.step hfact (leads_distance h))

/-- A concept away from `g` has a fact that leads nearer to `g`. -/
theorem exists_nearer (h : ReflTransGen t.IsA s g) (hne : s ≠ g) : ∃ p, t.IsA s p ∧
    ReflTransGen t.IsA p g ∧ t.distance g s = t.distance g p + 1 := by
  generalize hn : t.distance g s = n
  cases hn ▸ leads_distance h with
  | refl => exact absurd rfl hne
  | @step m _ p _ hfact hleads =>
    have hle : t.distance g p ≤ m := distance_le hleads
    have hge : t.distance g s ≤ t.distance g p + 1 := distance_le_of_isA hfact hleads.reaches
    exact ⟨p, hfact, hleads.reaches, by omega⟩

/-! ## Walks -/

/-- All concepts of the facts are known, and every fact is listed once. -/
structure Sound (t : Taxonomy) : Prop where
  known : ∀ k p, t.IsA k p → k ∈ t.concepts ∧ p ∈ t.concepts
  once : t.facts.Nodup

/-- The kinds of a concept that were not seen, in order. -/
def fresh (t : Taxonomy) (seen : List Concept) (c : Concept) : List Concept :=
  arrange (fun a b => decide (a.urn < b.urn)) ((t.kindsOf c).filter fun k => !seen.contains k)

theorem mem_kindsOf : k ∈ t.kindsOf c ↔ t.IsA k c := by
  simp [kindsOf, IsA]

theorem mem_fresh : k ∈ t.fresh seen c ↔ t.IsA k c ∧ k ∉ seen := by
  simp [fresh, mem_arrange, mem_kindsOf]

theorem nodup_kindsOf (h : t.Sound) (c : Concept) : (t.kindsOf c).Nodup := by
  refine List.Nodup.map_on ?_ (h.once.filter _)
  rintro ⟨k, p⟩ hkp ⟨k', p'⟩ hkp' rfl
  simp only [List.mem_filter, beq_iff_eq] at hkp hkp'
  rw [hkp.2, hkp'.2]

theorem nodup_fresh (h : t.Sound) (seen : List Concept) (c : Concept) : (t.fresh seen c).Nodup :=
  (perm_arrange _ _).nodup_iff.mpr ((nodup_kindsOf h c).filter _)

/-- A walk that goes on until its queue is empty: what was seen, what is in the queue, and what is
met from then on. -/
inductive Walks (t : Taxonomy) : List Concept → List Concept → List Concept → Prop where
  | done (seen : List Concept) : Walks t seen [] []
  | step {seen queue out : List Concept} {c : Concept} :
    Walks t (seen ++ t.fresh seen c) (queue ++ t.fresh seen c) out →
    Walks t seen (c :: queue) (t.fresh seen c ++ out)

theorem move_front (done queue new : List Concept) (c : Concept) :
    done ++ c :: queue ++ new = (done ++ [c]) ++ (queue ++ new) := by simp

/-- What is new in a queue was not seen before. -/
theorem nodup_append_fresh (h : t.Sound) (hseen : seen.Nodup) (c : Concept) :
    (seen ++ t.fresh seen c).Nodup :=
  hseen.append (nodup_fresh h seen c) fun _ hs hk => (mem_fresh.mp hk).2 hs

/-- As many steps as there are concepts are enough, since none is followed twice. -/
theorem walks_walk (h : t.Sound) {fuel : Nat} (hnodup : (done ++ queue).Nodup)
    (hknown : done ++ queue ⊆ t.concepts) (hfuel : t.concepts.length ≤ fuel + done.length) :
    t.Walks (done ++ queue) queue (t.walk fuel (done ++ queue) queue) := by
  have hlength : done.length + queue.length ≤ t.concepts.length := by
    rw [← List.length_append]
    exact (List.subperm_of_subset hnodup hknown).length_le
  induction fuel generalizing done queue with
  | zero =>
    have hempty : queue = [] := List.eq_nil_of_length_eq_zero (by omega)
    subst hempty
    exact .done _
  | succ fuel ih =>
    cases queue with
    | nil => exact .done _
    | cons c queue =>
      have hnodup' := nodup_append_fresh h hnodup c
      have hknown' : done ++ c :: queue ++ t.fresh (done ++ c :: queue) c ⊆ t.concepts :=
        List.append_subset.mpr ⟨hknown, fun k hk => (h.known k c (mem_fresh.mp hk).1).1⟩
      refine .step ?_
      change t.Walks _ _ (t.walk fuel (done ++ c :: queue ++ t.fresh (done ++ c :: queue) c) _)
      rw [move_front] at hnodup' hknown' ⊢
      refine ih hnodup' hknown' (by simp only [List.length_append, List.length_singleton]; omega) ?_
      rw [← List.length_append]
      exact (List.subperm_of_subset hnodup' hknown').length_le

theorem walks_below (h : t.Sound) (g : Concept) : t.Walks [g] [g] (t.below g) := by
  by_cases hg : g ∈ t.concepts
  · have hwalks : t.Walks ([] ++ [g]) [g] (t.walk t.concepts.length ([] ++ [g]) [g]) :=
      walks_walk h (by simp) (by simpa using hg) (by simp)
    exact hwalks
  · -- no fact is about an unknown concept
    have hnone : t.fresh [g] g = [] :=
      List.eq_nil_iff_forall_not_mem.mpr fun k hk => hg (h.known k g (mem_fresh.mp hk).1).2
    have hbelow : t.below g = [] := by
      unfold below
      cases t.concepts.length with
      | zero => rfl
      | succ n =>
        change t.fresh [g] g ++ t.walk n ([g] ++ t.fresh [g] g) ([] ++ t.fresh [g] g) = []
        rw [hnone]
        cases n <;> rfl
    have hwalks : t.Walks [g] [g] (t.fresh [g] g ++ []) := .step (by rw [hnone]; exact .done _)
    rw [hbelow]
    rwa [hnone, List.append_nil] at hwalks

/-- A walk is decided by the facts. -/
theorem Walks.unique {t' : Taxonomy} {out' : List Concept}
    (hfresh : ∀ seen c, t.fresh seen c = t'.fresh seen c) (h : t.Walks seen queue out)
    (h' : t'.Walks seen queue out') : out = out' := by
  induction h generalizing out' with
  | done seen =>
    cases h'
    rfl
  | @step seen queue out c _ ih =>
    cases h' with
    | step h' =>
      rw [hfresh] at ih ⊢
      rw [ih h']

theorem fresh_congr {t' : Taxonomy} (h : t.Sound) (h' : t'.Sound)
    (hfacts : ∀ k p, t.IsA k p ↔ t'.IsA k p) (seen : List Concept) (c : Concept) :
    t.fresh seen c = t'.fresh seen c := by
  have hkeys : ∀ {ks : List Concept}, ks.Nodup → (ks.map Concept.urn).Nodup := fun hks =>
    hks.map fun ⟨_, _⟩ ⟨_, _⟩ hurn => by simpa using hurn
  refine arrange_key_congr (hkeys ((nodup_kindsOf h c).filter _))
    (hkeys ((nodup_kindsOf h' c).filter _)) fun k => ?_
  simp only [List.mem_filter, mem_kindsOf, hfacts]

/-- Taxonomies with the same facts tell the same of every concept. -/
theorem below_congr {t' : Taxonomy} (h : t.Sound) (h' : t'.Sound)
    (hfacts : ∀ k p, t.IsA k p ↔ t'.IsA k p) (g : Concept) : t.below g = t'.below g :=
  (walks_below h g).unique (fresh_congr h h' hfacts) (walks_below h' g)

/-! ## What a walk has met -/

/-- Where a walk down from `g` stands: the concepts in `done` were followed, those of the queue are
next. -/
structure Frontier (t : Taxonomy) (g : Concept) (done queue : List Concept) : Prop where
  start : g ∈ done ++ queue
  once : (done ++ queue).Nodup
  reached : ∀ c ∈ done ++ queue, ReflTransGen t.IsA c g
  closed : ∀ c ∈ done, ∀ k, t.IsA k c → k ∈ done ++ queue
  sorted : (done ++ queue).Pairwise fun a b => t.distance g a ≤ t.distance g b
  near : ∀ c ∈ queue, ∀ k ∈ done ++ queue, t.distance g k ≤ t.distance g c + 1

namespace Frontier

theorem first (g : Concept) : t.Frontier g [] [g] where
  start := by simp
  once := by simp
  reached c hc := by rw [List.mem_singleton.mp hc]
  closed := by simp
  sorted := by simp
  near c hc k hk := by rw [List.mem_singleton.mp hc, List.mem_singleton.mp hk]; omega

/-- Nothing that was not followed is nearer than the front of the queue. -/
theorem front_le (h : t.Frontier g done (c :: queue)) (hs : ReflTransGen t.IsA s g)
    (hnot : s ∉ done) : t.distance g c ≤ t.distance g s := by
  have hqueue : ∀ k ∈ c :: queue, t.distance g c ≤ t.distance g k := by
    intro k hk
    rcases List.mem_cons.mp hk with rfl | hk
    · exact Nat.le_refl _
    · exact (List.pairwise_cons.mp (List.pairwise_append.mp h.sorted).2.1).1 k hk
  generalize hn : t.distance g s = n
  induction n generalizing s with
  | zero =>
    by_cases hsg : s = g
    · subst hsg
      have hmem : s ∈ c :: queue := (List.mem_append.mp h.start).resolve_left hnot
      exact hn ▸ hqueue s hmem
    · obtain ⟨p, -, -, hdist⟩ := exists_nearer hs hsg
      omega
  | succ n ih =>
    by_cases hsg : s = g
    · subst hsg
      have hmem : s ∈ c :: queue := (List.mem_append.mp h.start).resolve_left hnot
      exact hn ▸ hqueue s hmem
    · obtain ⟨p, hfact, hp, hdist⟩ := exists_nearer hs hsg
      by_cases hdone : p ∈ done
      · have hmem : s ∈ c :: queue :=
          (List.mem_append.mp (h.closed p hdone s hfact)).resolve_left hnot
        exact hn ▸ hqueue s hmem
      · have hle : t.distance g c ≤ n := ih hp hdone (by omega)
        omega

/-- What is new stands one step behind the concept that it was found by. -/
theorem distance_fresh (h : t.Frontier g done (c :: queue))
    (hk : k ∈ t.fresh (done ++ c :: queue) c) : t.distance g k = t.distance g c + 1 := by
  obtain ⟨hfact, hnew⟩ := mem_fresh.mp hk
  have hc : ReflTransGen t.IsA c g := h.reached c (by simp)
  have hle : t.distance g k ≤ t.distance g c + 1 := distance_le_of_isA hfact hc
  have hne : k ≠ g := fun heq => hnew (heq ▸ h.start)
  obtain ⟨p, hp, hreach, hdist⟩ := exists_nearer (.head hfact hc) hne
  have hnot : p ∉ done := fun hdone => hnew (h.closed p hdone k hp)
  have hge : t.distance g c ≤ t.distance g p := h.front_le hreach hnot
  omega

theorem step (hs : t.Sound) (h : t.Frontier g done (c :: queue)) :
    t.Frontier g (done ++ [c]) (queue ++ t.fresh (done ++ c :: queue) c) := by
  have hc : ReflTransGen t.IsA c g := h.reached c (by simp)
  have hfresh : ∀ k ∈ t.fresh (done ++ c :: queue) c, t.distance g k = t.distance g c + 1 :=
    fun k hk => h.distance_fresh hk
  have hold : ∀ k ∈ done ++ c :: queue, t.distance g k ≤ t.distance g c + 1 :=
    h.near c List.mem_cons_self
  constructor
  · rw [← move_front]
    exact List.mem_append_left _ h.start
  · rw [← move_front]
    exact nodup_append_fresh hs h.once c
  · rw [← move_front, List.forall_mem_append]
    exact ⟨h.reached, fun k hk => .head (mem_fresh.mp hk).1 hc⟩
  · rw [← move_front, List.forall_mem_append, List.forall_mem_singleton]
    refine ⟨fun b hb k hk => List.mem_append_left _ (h.closed b hb k hk), fun k hk => ?_⟩
    by_cases hseen : k ∈ done ++ c :: queue
    · exact List.mem_append_left _ hseen
    · exact List.mem_append_right _ (mem_fresh.mpr ⟨hk, hseen⟩)
  · rw [← move_front]
    refine List.pairwise_append.mpr ⟨h.sorted, ?_, fun a ha b hb => ?_⟩
    · exact List.pairwise_iff_forall_sublist.mpr fun {a b} hab => by
        rw [hfresh a (hab.subset (by simp)), hfresh b (hab.subset (by simp))]
    · rw [hfresh b hb]
      exact hold a ha
  · rw [← move_front]
    -- the front of the queue was the nearest, so one step behind it is near enough
    have hfront : ∀ b ∈ queue ++ t.fresh (done ++ c :: queue) c,
        t.distance g c ≤ t.distance g b := by
      intro b hb
      rcases List.mem_append.mp hb with hb | hb
      · exact (List.pairwise_cons.mp (List.pairwise_append.mp h.sorted).2.1).1 b hb
      · rw [hfresh b hb]
        exact Nat.le_succ _
    intro b hb k hk
    have hbound : t.distance g k ≤ t.distance g c + 1 :=
      (List.mem_append.mp hk).elim (hold k) fun hk => Nat.le_of_eq (hfresh k hk)
    have := hfront b hb
    omega

end Frontier

theorem Walks.frontier (hs : t.Sound) (h : t.Walks seen queue out) (hseen : seen = done ++ queue)
    (hfront : t.Frontier g done queue) : t.Frontier g (seen ++ out) [] := by
  induction h generalizing done with
  | done seen => simpa [hseen] using hfront
  | @step seen queue out c _ ih =>
    subst hseen
    simpa using ih (move_front ..) (hfront.step hs)

theorem frontier_below (hs : t.Sound) (g : Concept) : t.Frontier g (g :: t.below g) [] :=
  (walks_below hs g).frontier hs rfl (.first g)

/-- A walk down from a concept meets what the facts lead up to it from. -/
theorem mem_cons_below (hs : t.Sound) : s ∈ g :: t.below g ↔ ReflTransGen t.IsA s g := by
  have hfront := frontier_below hs g
  rw [← List.append_nil (g :: t.below g)]
  refine ⟨hfront.reached s, fun h => ?_⟩
  induction h using ReflTransGen.head_induction_on with
  | refl => exact hfront.start
  | head hfact _ ih => exact hfront.closed _ (by simpa using ih) _ hfact

theorem subsumes_iff (hs : t.Sound) : t.subsumes g s = true ↔ ReflTransGen t.IsA s g := by
  rw [← mem_cons_below hs, List.mem_cons]
  simp only [subsumes, Bool.or_eq_true, beq_iff_eq, List.contains_iff_mem]
  exact or_congr_left eq_comm

theorem mem_below (hs : t.Sound) : s ∈ t.below g ↔ s ≠ g ∧ ReflTransGen t.IsA s g := by
  have honce : g ∉ t.below g := by
    have := (frontier_below hs g).once
    rw [List.append_nil] at this
    exact (List.nodup_cons.mp this).1
  rw [← mem_cons_below hs, List.mem_cons]
  constructor
  · exact fun h => ⟨fun heq => honce (heq ▸ h), .inr h⟩
  · exact fun h => h.2.resolve_left h.1

theorem nodup_below (hs : t.Sound) (g : Concept) : (t.below g).Nodup := by
  have := (frontier_below hs g).once
  rw [List.append_nil] at this
  exact (List.nodup_cons.mp this).2

theorem sorted_below (hs : t.Sound) (g : Concept) :
    (t.below g).Pairwise fun a b => t.distance g a ≤ t.distance g b := by
  have := (frontier_below hs g).sorted
  rw [List.append_nil] at this
  exact (List.pairwise_cons.mp this).2

end Obsplan.Taxonomy
