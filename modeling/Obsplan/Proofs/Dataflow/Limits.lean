import Obsplan.Proofs.Dataflow.Depths
import Obsplan.Proofs.Dataflow.Insertion

/-!
# Limits on the nesting

The nesting of a plan is limited twice: the lowering counts the levels of the nodes on its way down,
the text those of the finished actuators. Main statement: both count alike, so the lowering fails
just for the plans that have no text, and a plan that it lets through is written in full.
-/

namespace Obsplan

variable {α : Type} [Coordinate α]

namespace Actuator

mutual

theorem depths_le_iff (limit : Nat) : (depth : Nat) → (a : Actuator α) →
    ((∀ p ∈ depths depth a, p.1 ≤ limit) ↔ levels a ≤ limit + 1 - depth)
  | depth, .mk j children => by
    rw [depths, List.forall_mem_cons, depthsAll_le_iff limit (depth + 1) children, levels]
    omega

theorem depthsAll_le_iff (limit : Nat) : (depth : Nat) → (as : List (Actuator α)) →
    ((∀ p ∈ depthsAll depth as, p.1 ≤ limit) ↔ levelsAll as ≤ limit + 1 - depth)
  | depth, [] => by simp [depthsAll, levelsAll]
  | depth, a :: as => by
    rw [depthsAll, List.forall_mem_append, depths_le_iff limit depth a,
      depthsAll_le_iff limit depth as, levelsAll, Nat.max_le]

end

end Actuator

/-- The levels of a plan are counted from one, the depth of an actuator from zero. -/
theorem Dataflow.exists_deeper_iff (d : Dataflow α) (limit : Nat) :
    (∃ p ∈ d.depths, limit < p.1) ↔ limit + 1 < d.levels := by
  have h := Actuator.depthsAll_le_iff limit 0 d.actuators
  rw [Nat.sub_zero] at h
  rw [← not_iff_not, Nat.not_lt]
  simpa [Dataflow.depths, Dataflow.levels] using h

namespace Lowering

open Actuator

variable {r : Resolution α} {limit level fuel n i : Nat} {is : List Nat} {s s' : LoweringState}
  {as : List (Actuator α)} {free limited : Visit α}

/-! ## Limited runs -/

/-- What a limited run gives where another one makes actuators from a level on: the same, unless
they are nested too deeply. -/
structure Cuts (limit level : Nat) (as : List (Actuator α)) (s' : LoweringState)
    (res : Except DataflowError (List (Actuator α)) × LoweringState) : Prop where
  same : level + levelsAll as ≤ limit + 1 → res = (.ok as, s')
  fails : limit + 1 < level + levelsAll as → ∃ s, res = (.error (.depthExceeded limit), s)

/-- A limited visitor, for the nodes before `n`, which are there. -/
def CutsBelow (nodes : List (Node α)) (limit level n : Nat) (free limited : Visit α) : Prop :=
  ∀ {i : Nat} {s s' : LoweringState} {as : List (Actuator α)}, i < n → i < nodes.length →
    free i s = (.ok as, s') → Cuts limit level as s' (limited i s)

theorem each_cuts (hlevel : level ≤ limit + 1)
    (hvisit : CutsBelow r.nodes limit level n free limited)
    (his : ∀ i ∈ is, i < n ∧ i < r.nodes.length) (h : each free is s = (.ok as, s')) :
    Cuts limit level as s' (each limited is s) := by
  induction is generalizing s as with
  | nil =>
    cases h
    refine ⟨fun _ => rfl, fun hlt => ?_⟩
    rw [levelsAll] at hlt
    omega
  | cons i is ih =>
    obtain ⟨hi, his⟩ := List.forall_mem_cons.mp his
    obtain ⟨here, s₁, rest, hhere, hrest, rfl⟩ := each_cons_ok h
    have hfirst := hvisit hi.1 hi.2 hhere
    have hothers := ih his hrest
    rw [each]
    constructor
    · intro hle
      rw [levelsAll_append] at hle
      rw [hfirst.same (by omega)]
      dsimp only
      rw [hothers.same (by omega)]
    · intro hlt
      rw [levelsAll_append] at hlt
      by_cases hdeep : limit + 1 < level + levelsAll here
      · obtain ⟨s₂, hfails⟩ := hfirst.fails hdeep
        exact ⟨s₂, by rw [hfails]⟩
      · obtain ⟨s₂, hfails⟩ := hothers.fails (by omega)
        refine ⟨s₂, ?_⟩
        rw [hfirst.same (by omega)]
        dsimp only
        rw [hfails]

theorem place_cuts {deeper limitedDeeper : Visit α} {id : Identifier} (ho : Ordered r.nodes)
    (hlevel : level ≤ limit) (hdeep : CutsBelow r.nodes limit (level + 1) n deeper limitedDeeper)
    (hn : n < r.nodes.length) (h : place r deeper n id s = (.ok as, s')) :
    Cuts limit level as s' (place r limitedDeeper n id s) := by
  obtain ⟨node, hnode⟩ : ∃ node, r.nodes[n]? = some node := ⟨_, List.getElem?_eq_getElem hn⟩
  cases hv : s.visited.get? n with
  | some first =>
    simp only [place, hv, hnode] at h ⊢
    cases h
    refine ⟨fun _ => rfl, fun hlt => ?_⟩
    simp only [levelsAll, levels] at hlt
    omega
  | none =>
    simp only [place, hv, hnode] at h ⊢
    split at h
    · cases h
    · rename_i children s₁ hchildren
      cases h
      have hbelow : ∀ c ∈ node.children, c < n ∧ c < r.nodes.length := fun c hc =>
        have hlt : c < n := ho.descending ⟨node, hnode, hc⟩
        ⟨hlt, Nat.lt_trans hlt hn⟩
      have hcuts := each_cuts (Nat.succ_le_succ hlevel) hdeep hbelow hchildren
      have hlevels : levelsAll [.mk (ownJob node id) children] = levelsAll children + 1 := by
        simp [levelsAll, levels]
      constructor
      · intro hle
        rw [hcuts.same (by omega)]
      · intro hlt
        obtain ⟨s₂, hfails⟩ := hcuts.fails (by omega)
        exact ⟨s₂, by rw [hfails]⟩

theorem Lowers.levelsAll_pos {new : List Nat} (h : Lowers r.nodes [i] s as new s') :
    0 < levelsAll as := by
  obtain ⟨own, hown⟩ := exists_places s'
  cases h.unfolds own hown with
  | @cons _ _ a _ _ _ =>
    cases a
    rw [levelsAll, levels]
    omega

theorem visit_cuts (ho : Ordered r.nodes) (fuel level : Nat) (hlevel : level ≤ limit + 1) :
    CutsBelow r.nodes limit level fuel (visit r none fuel level)
      (visit r (some limit) fuel level) := by
  induction fuel generalizing level with
  | zero => intro _ _ _ _ hi; exact absurd hi (Nat.not_lt_zero _)
  | succ fuel ih =>
    intro i s s' as hi hlen h
    obtain ⟨new, hlowers⟩ := visit_lowers ho (fuel + 1) level hi hlen h
    obtain ⟨-, id, rest, ha, hplace⟩ := visit_succ_ok h
    by_cases hwithin : level ≤ limit
    · have hlimited : visit r (some limit) (fuel + 1) level i s =
          place r (visit r (some limit) fuel (level + 1)) i id { s with allocator := rest } := by
        have hfilter : (some limit).filter (fun m => decide (m < level)) = none := by
          simpa using hwithin
        rw [visit, hfilter, ha]
      rw [hlimited]
      refine place_cuts ho hwithin (fun hj => ?_) hlen hplace
      exact ih (level + 1) (Nat.succ_le_succ hwithin) (Nat.lt_of_lt_of_le hj (Nat.le_of_lt_succ hi))
    · have hlimited : visit r (some limit) (fuel + 1) level i s =
          (.error (.depthExceeded limit), s) := by
        have hfilter : (some limit).filter (fun m => decide (m < level)) = some limit := by
          simpa using hwithin
        rw [visit, hfilter]
      rw [hlimited]
      have := hlowers.levelsAll_pos
      exact ⟨fun hle => by omega, fun _ => ⟨s, rfl⟩⟩

end Lowering

/-! ## Plans within a limit -/

namespace Resolution

open Lowering

variable {sources : Sources α} {limits : Limits α} {o : Observable} {ctx : Context α}
  {r : Resolution α} {allocator rest : Allocator} {d : Dataflow α}

/-- A limit makes no difference to a plan that keeps it, and only the other ones are refused. -/
theorem lower_cuts (limit : Nat) (ho : Ordered r.nodes)
    (hroots : ∀ i ∈ r.roots, i < r.nodes.length) (h : r.lower none allocator = (.ok d, rest)) :
    (d.levels ≤ limit + 1 → r.lower (some limit) allocator = (.ok d, rest)) ∧
      (limit + 1 < d.levels →
        (r.lower (some limit) allocator).1 = .error (.depthExceeded limit)) := by
  obtain ⟨s', heach, hrequirements, rfl⟩ := lower_ok h
  have hvisit : CutsBelow r.nodes limit 0 (r.nodes.length + 1)
      (visit r none (r.nodes.length + 1) 0) (visit r (some limit) (r.nodes.length + 1) 0) :=
    visit_cuts ho _ 0 (Nat.zero_le _)
  have hcuts := each_cuts (Nat.zero_le _) hvisit
    (fun i hi => ⟨Nat.lt_succ_of_lt (hroots i hi), hroots i hi⟩) heach
  have hlevels : d.levels = 0 + Actuator.levelsAll d.actuators := (Nat.zero_add _).symm
  rw [hlevels]
  rw [lower_eq] at h ⊢
  unfold unfolded at h ⊢
  by_cases hempty : r.isEmpty = true
  · rw [if_pos hempty] at h ⊢
    cases h
    exact ⟨fun _ => rfl, fun hlt => absurd hlt (by simp [Dataflow.empty, Actuator.levelsAll])⟩
  · rw [if_neg hempty] at h ⊢
    dsimp only at h ⊢
    rw [heach] at h
    refine ⟨fun hle => ?_, fun hlt => ?_⟩
    · rw [hcuts.same hle]
      exact h
    · obtain ⟨s₁, hfails⟩ := hcuts.fails hlt
      rw [hfails]

/-- Without a limit, only the identifiers can run out. -/
theorem exists_lower (h : resolve sources limits o ctx = .ok r)
    (hleft : (r.lower none allocator).1 ≠ .error .identifiersExhausted) :
    ∃ d rest, r.lower none allocator = (.ok d, rest) := by
  obtain ⟨d, rest, hlower, -⟩ | ⟨e, hfails, rfl | ⟨m, hm, -⟩⟩ := lower_ends h none allocator
  · exact ⟨d, rest, hlower⟩
  · exact absurd hfails hleft
  · cases hm

end Resolution

namespace Dataflow

open Resolution

/-- A plan has no text just when it is nested too deeply, the lowering is refused just when the plan
that is made without a limit is, and what is lowered within the limit is written in full. -/
theorem encode_lower (limit : Nat) (scope : Context α) :
    (∀ d : Dataflow α, d.encode limit scope = encodingError ↔ ∃ p ∈ d.depths, limit < p.1) ∧
    (∀ (sources : Sources α) (limits : Limits α) (o : Observable) (ctx : Context α)
        (r : Resolution α) (allocator : Allocator), resolve sources limits o ctx = .ok r →
      (r.lower none allocator).1 ≠ .error .identifiersExhausted →
      ∃ d rest, r.lower none allocator = (.ok d, rest) ∧
        ((r.lower (some limit) allocator).1 = .error (.depthExceeded limit) ↔
          ∃ p ∈ d.depths, limit < p.1) ∧
        ((¬ ∃ p ∈ d.depths, limit < p.1) →
          r.lower (some limit) allocator = (.ok d, rest))) ∧
    ∀ (r : Resolution α) (allocator rest : Allocator) (d : Dataflow α),
      r.lower (some limit) allocator = (.ok d, rest) →
      d.encode limit scope =
        "dataflow " ++ nameOf scope.displayName ++ "\n;" ++ rootsText d.actuators := by
  refine ⟨fun d => ?_, fun sources limits o ctx r allocator h hleft => ?_, fun r a rest d h => ?_⟩
  · rw [encode_eq_encodingError, exists_deeper_iff]
  · obtain ⟨ho, hroots⟩ := resolve_ordered h
    obtain ⟨d, rest, hlower⟩ := exists_lower h hleft
    obtain ⟨hsame, hfails⟩ := lower_cuts limit ho hroots hlower
    rw [← d.exists_deeper_iff] at hfails
    have hkept : (¬ ∃ p ∈ d.depths, limit < p.1) →
        r.lower (some limit) allocator = (.ok d, rest) := by
      rw [d.exists_deeper_iff, Nat.not_lt]
      exact hsame
    refine ⟨d, rest, hlower, ⟨fun herror => ?_, hfails⟩, hkept⟩
    by_contra hshallow
    rw [hkept hshallow] at herror
    cases herror
  · exact encode_eq (levels_lower h) scope

/-- Water is two levels below land, which is more than one and not more than two. -/
theorem encode_lower_layered :
    ∃ r d rest, resolve layered ({} : Config).limits land everywhere = .ok r ∧
      r.lower none {} = (.ok d, rest) ∧ d.depths.map Prod.fst = [0, 1, 2] ∧
      (r.lower (some 1) {}).1 = .error (.depthExceeded 1) ∧ d.encode 1 everywhere = encodingError ∧
      r.lower (some 2) {} = (.ok d, rest) ∧
      d.encode 2 everywhere =
        "dataflow " ++ nameOf everywhere.displayName ++ "\n;" ++ rootsText d.actuators := by
  obtain ⟨r, hr, hdepths⟩ := exists_of_any (P := fun r : Resolution Number =>
      ((r.lower none {}).1.toOption.any fun d => decide (d.depths.map Prod.fst = [0, 1, 2])) = true)
    (x := resolve layered ({} : Config).limits land everywhere) (by decide +kernel)
  obtain ⟨d, hd, hdepths⟩ := exists_of_any hdepths
  have hleft : (r.lower none {}).1 ≠ .error .identifiersExhausted := by
    rw [hd]
    simp
  have hdeepest : ∀ limit, (∃ p ∈ d.depths, limit < p.1) ↔ ∃ depth ∈ [0, 1, 2], limit < depth := by
    intro limit
    simp [← hdepths]
  obtain ⟨hencode, hlower, -⟩ := encode_lower 1 everywhere
  obtain ⟨d₁, rest, hfree, hfails, -⟩ := hlower _ _ _ _ r {} hr hleft
  obtain ⟨-, hlower₂, hfull⟩ := encode_lower 2 everywhere
  obtain ⟨d₂, rest₂, hfree₂, -, hkept⟩ := hlower₂ _ _ _ _ r {} hr hleft
  rw [hfree] at hd hfree₂
  cases hd
  cases hfree₂
  have hlower₂ := hkept (by rw [hdeepest]; decide)
  refine ⟨r, d, rest, hr, hfree, hdepths, hfails.mpr ?_, (hencode d).mpr ?_, hlower₂,
    hfull r {} rest d hlower₂⟩
  · rw [hdeepest]; decide
  · rw [hdeepest]; decide

end Dataflow

end Obsplan
