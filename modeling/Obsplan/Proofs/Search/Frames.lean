import Mathlib.Logic.Function.Basic
import Mathlib.Logic.Relation
import Obsplan.Proofs.Search.Arena

/-!
# Frames

The frame of a node holds the nodes that were made while its dependencies were searched. Frames are
nested, a model is not searched again for its own observable within its frame, and every node of a
finished resolution is a root or lies in the frame of a node that refers to it.
-/

namespace Obsplan

variable {α : Type} [Coordinate α] {nodes : List (Node α)} {w : Nat → Nat}

/-- What was searched when a node was made. -/
def Node.key (n : Node α) : String := Search.pathKey n.observable n.scale

/-- A model satisfies the node. -/
def Node.IsModel (n : Node α) : Prop := ∃ m, n.means = .model m

/-- The frame of node `i` reaches from `w i` up to `i`. -/
structure Frames (nodes : List (Node α)) (w : Nat → Nat) : Prop where
  le : ∀ {i : Nat}, i < nodes.length → w i ≤ i
  nested : ∀ {i j : Nat}, i < nodes.length → w i ≤ j → j < i → w i ≤ w j
  apart : ∀ {i j : Nat} {n m : Node α}, nodes[i]? = some n → nodes[j]? = some m → m.IsModel →
    w i ≤ j → j < i → m.key ≠ n.key

/-- A node in the frame of a node that refers to it. -/
def Framed (nodes : List (Node α)) (w : Nat → Nat) (i : Nat) : Prop :=
  ∃ j, Refers nodes j i ∧ w j ≤ i

/-- Node `i` refers to a node that is no root and that nothing else refers to. -/
def Owns (nodes : List (Node α)) (roots : List Nat) (i j : Nat) : Prop :=
  Refers nodes i j ∧ j ∉ roots ∧ ∀ k, Refers nodes k j → k = i

theorem Frames.nil : Frames ([] : List (Node α)) w := ⟨by simp, by simp, by simp⟩

/-- What a node owns, directly or through others, lies in its frame. -/
theorem Frames.owned (hf : Frames nodes w) (ho : Ordered nodes) {roots : List Nat}
    (hall : ∀ i < nodes.length, i ∈ roots ∨ Framed nodes w i) {u l : Nat}
    (h : Relation.TransGen (Owns nodes roots) u l) : w u ≤ l ∧ l < u := by
  have inside : ∀ {i j : Nat}, Owns nodes roots i j → w i ≤ j ∧ j < i := by
    intro i j ⟨hr, hroot, hone⟩
    have hlt := ho.descending hr
    obtain hj | ⟨k, hk, hw⟩ := hall j (Nat.lt_trans hlt hr.lt_length)
    · exact absurd hj hroot
    · rw [hone k hk] at hw
      exact ⟨hw, hlt⟩
  have hlen : u < nodes.length := by
    cases Relation.TransGen.head'_iff.mp h with
    | intro v hv => exact hv.1.1.lt_length
  induction h with
  | single h => exact inside h
  | tail _ h ih =>
    obtain ⟨hw, hlt⟩ := inside h
    have := hf.nested hlen ih.1 ih.2
    omega

/-- Every node is reached from a root when every other one is referred to. -/
theorem reachable_of_framed (ho : Ordered nodes) {roots : List Nat}
    (hall : ∀ i < nodes.length, i ∈ roots ∨ Framed nodes w i) {i : Nat} (hi : i < nodes.length) :
    ∃ root ∈ roots, Relation.ReflTransGen (Refers nodes) root i := by
  -- a node that refers to another one comes later, and there is a last one
  induction hk : nodes.length - i using Nat.strongRecOn generalizing i with
  | ind k ih =>
    obtain hroot | ⟨j, hj, -⟩ := hall i hi
    · exact ⟨i, hroot, .refl⟩
    · have hlt := ho.descending hj
      have hlen := hj.lt_length
      obtain ⟨root, hroot, hreach⟩ := ih (nodes.length - j) (by omega) hlen rfl
      exact ⟨root, hroot, hreach.tail hj⟩

namespace Search

variable {s s₁ s' : SearchState α} {w₁ w' : Nat → Nat} {out out₁ : List Nat} {p p₁ : List String}

/-- What a part of the search adds: frames of their own, and nodes that it found or that lie in the
frame of a node that refers to them. No model was made for an observable in `p`. -/
structure Framing (p : List String) (s : SearchState α) (w : Nat → Nat) (s' : SearchState α)
    (w' : Nat → Nat) (out : List Nat) : Prop where
  frames : Frames s'.nodes w'
  same : ∀ i < s.nodes.length, w' i = w i
  inside : ∀ i < s'.nodes.length, s.nodes.length ≤ i → s.nodes.length ≤ w' i
  avoids : ∀ {i : Nat} {n : Node α}, s.nodes.length ≤ i → s'.nodes[i]? = some n → n.IsModel →
    n.key ∉ p
  framed : ∀ i < s'.nodes.length, s.nodes.length ≤ i → i ∈ out ∨ Framed s'.nodes w' i

namespace Framing

theorem refl (hf : Frames s.nodes w) : Framing p s w s w out where
  frames := hf
  same _ _ := rfl
  inside i hi hle := by omega
  avoids hle hn := by
    have := (List.getElem?_eq_some_iff.mp hn).1
    omega
  framed i hi hle := by omega

theorem trans (h : Framing p s w s₁ w₁ out) (h₁ : Framing p s₁ w₁ s' w' out₁)
    (hpre : s.nodes <+: s₁.nodes) (hpre₁ : s₁.nodes <+: s'.nodes) :
    Framing p s w s' w' (out ++ out₁) where
  frames := h₁.frames
  same i hi := (h₁.same i (Nat.lt_of_lt_of_le hi hpre.length_le)).trans (h.same i hi)
  inside i hi hle := by
    have := hpre.length_le
    by_cases hlt : i < s₁.nodes.length
    · rw [h₁.same i hlt]; exact h.inside i hlt hle
    · have := h₁.inside i hi (by omega)
      omega
  avoids {i n} hle hn hm := by
    by_cases hlt : i < s₁.nodes.length
    · obtain ⟨m, hm₁⟩ : ∃ m, s₁.nodes[i]? = some m := ⟨_, List.getElem?_eq_getElem hlt⟩
      have hsame := getElem?_extend hpre₁ hm₁
      rw [hn, Option.some.injEq] at hsame
      exact h.avoids hle (hsame ▸ hm₁) hm
    · exact h₁.avoids (by omega) hn hm
  framed i hi hle := by
    by_cases hlt : i < s₁.nodes.length
    · obtain ho | ⟨j, hj, hw⟩ := h.framed i hlt hle
      · exact .inl (List.mem_append_left _ ho)
      · exact .inr ⟨j, hj.extend hpre₁, by rwa [h₁.same j hj.lt_length]⟩
    · exact (h₁.framed i hi (by omega)).imp_left (List.mem_append_right _)

/-- Only the nodes matter. -/
theorem congr (h : Framing p s₁ w s' w' out) (hn : s.nodes = s₁.nodes) :
    Framing p s w s' w' out :=
  ⟨h.frames, by simpa [hn] using h.same, by simpa [hn] using h.inside,
    fun hle => h.avoids (hn ▸ hle), by simpa [hn] using h.framed⟩

theorem congr' (h : Framing p s w s₁ w' out) (hn : s'.nodes = s₁.nodes) :
    Framing p s w s' w' out :=
  ⟨hn ▸ h.frames, h.same, by simpa [hn] using h.inside,
    fun hle hm => h.avoids hle (hn ▸ hm), by simpa [hn] using h.framed⟩

theorem mono (h : Framing p s w s' w' out) (hout : ∀ i ∈ out, i ∈ out₁) :
    Framing p s w s' w' out₁ :=
  ⟨h.frames, h.same, h.inside, h.avoids, fun i hi hle => (h.framed i hi hle).imp_left (hout i)⟩

/-- The node that is made when everything it refers to was found. Either its observable was on the
path meanwhile, or it stands for a dependency and refers to nothing. -/
theorem push {o : Observable} {scale : Scale α} {means : Means α} {coverage : Coverage α}
    {links : List Link} (h : Framing p₁ s w s₁ w₁ (links.flatMap Link.nodes))
    (hpre : s.nodes <+: s₁.nodes) (hsub : ∀ k ∈ p, k ∈ p₁)
    (hkey : pathKey o scale ∈ p₁ ∧ pathKey o scale ∉ p ∨
      (∀ m, means ≠ .model m) ∧ s₁.nodes.length ≤ s.nodes.length) :
    Framing p s w (s₁.push o scale means coverage links).2
      (Function.update w₁ s₁.nodes.length s.nodes.length) [s₁.nodes.length] := by
  have hle := hpre.length_le
  have hold : ∀ {i : Nat}, i < s₁.nodes.length →
      Function.update w₁ s₁.nodes.length s.nodes.length i = w₁ i :=
    fun hi => Function.update_of_ne (Nat.ne_of_lt hi) _ _
  have hnew : Function.update w₁ s₁.nodes.length s.nodes.length s₁.nodes.length = s.nodes.length :=
    Function.update_self _ _ _
  have hlast : ∀ {i : Nat}, i < (s₁.push o scale means coverage links).2.nodes.length →
      i < s₁.nodes.length ∨ i = s₁.nodes.length := by
    intro i hi
    simp only [SearchState.nodes_push, List.length_append, List.length_singleton] at hi
    omega
  refine ⟨⟨?_, ?_, ?_⟩, ?_, ?_, ?_, ?_⟩
  · intro i hi
    rcases hlast hi with hi | rfl
    · rw [hold hi]; exact h.frames.le hi
    · rw [hnew]; exact hle
  · intro i j hi hw hj
    rcases hlast hi with hi | rfl
    · rw [hold hi] at hw ⊢
      rw [hold (Nat.lt_trans hj hi)]
      exact h.frames.nested hi hw hj
    · rw [hnew] at hw ⊢
      rw [hold hj]
      exact h.inside j hj hw
  · intro i j n m hn hm hmm hw hj
    rcases getElem?_push hn with hn | ⟨rfl, rfl⟩
    · have hi := (List.getElem?_eq_some_iff.mp hn).1
      rcases getElem?_push hm with hm | ⟨rfl, -⟩
      · rw [hold hi] at hw
        exact h.frames.apart hn hm hmm hw hj
      · omega
    · rw [hnew] at hw
      rcases getElem?_push hm with hm | ⟨rfl, -⟩
      · rcases hkey with ⟨hin, -⟩ | ⟨-, hlen⟩
        · exact fun hsame => h.avoids hw hm hmm (hsame ▸ hin)
        · omega
      · omega
  · intro i hi
    rw [hold (by omega)]
    exact h.same i hi
  · intro i hi hge
    rcases hlast hi with hi | rfl
    · rw [hold hi]; exact h.inside i hi hge
    · exact Nat.le_of_eq hnew.symm
  · intro i n hge hn hm
    rcases getElem?_push hn with hn | ⟨rfl, rfl⟩
    · exact fun hp => h.avoids hge hn hm (hsub _ hp)
    · rcases hkey with ⟨-, hout⟩ | ⟨hmeans, -⟩
      · exact hout
      · obtain ⟨model, hmodel⟩ := hm
        exact absurd hmodel (hmeans model)
  · intro i hi hge
    rcases hlast hi with hi | rfl
    · refine .inr ?_
      obtain ho | ⟨j, hj, hw⟩ := h.framed i hi hge
      · exact ⟨s₁.nodes.length, ⟨_, List.getElem?_concat_length, ho⟩, by rwa [hnew]⟩
      · exact ⟨j, hj.extend (List.prefix_append _ _), by rwa [hold hj.lt_length]⟩
    · exact .inl List.mem_cons_self

theorem standIn (hf : Frames s.nodes w) {o : Observable} {scale : Scale α} {means : Means α}
    {coverage : Coverage α} (hm : ∀ m, means ≠ .model m) :
    ∃ w', Framing p s w (s.push o scale means coverage []).2 w' [s.nodes.length] :=
  ⟨_, push (refl hf) List.prefix_rfl (fun _ hk => hk) (.inr ⟨hm, Nat.le_refl _⟩)⟩

end Framing

/-! ## What the parts of the search add -/

/-- A searcher that adds frames. -/
def AddsFrames (deeper : Searcher α) : Prop :=
  ∀ {o : Observable} {ctx : Context α} {s s' : SearchState α} {w : Nat → Nat} {b : Branch α},
    Sound s → Frames s.nodes w → deeper o ctx s = .ok (b, s') →
    ∃ w', Framing s.path s w s' w' b.nodes

variable {deeper : Searcher α} {m : Model α} {o : Observable} {ctx : Context α} {c : Candidate α}

theorem linkStep_frames (hext : Extending deeper) (hadds : AddsFrames deeper) (hs : Sound s)
    (hf : Frames s.nodes w) {d : Dependency α} {coverage coverage' : Coverage α} {link : Link}
    (h : LinkStep deeper m ctx d coverage s (some (link, coverage')) s') :
    ∃ w', Framing s.path s w s' w' link.nodes := by
  cases h with
  | deferred => exact Framing.standIn hf (by simp)
  | found _ hb _ => exact hadds hs hf hb
  | @missing b s₁ n means _ _ hb hn hstands =>
    obtain ⟨w₁, h₁⟩ := hadds hs hf hb
    rw [hn] at h₁
    have h₁ : Framing s.path s w (s₁.notify n) w₁ [] := h₁.congr' rfl
    have hmeans : ∀ m, means ≠ .model m := by cases hstands <;> simp
    obtain ⟨w', h'⟩ := Framing.standIn h₁.frames hmeans
    exact ⟨w', h₁.trans h' (hext hs hb).nodes (List.prefix_append _ _)⟩

theorem linkRun_frames (hext : Extending deeper) (hadds : AddsFrames deeper) (hs : Sound s)
    (hf : Frames s.nodes w) {ds : List (Dependency α)} {coverage coverage' : Coverage α}
    {links : List Link} {res : Option (List Link × Coverage α)}
    (h : LinkRun deeper m o ctx ds coverage s res s') (hres : res = some (links, coverage')) :
    ∃ w', Framing s.path s w s' w' (links.flatMap Link.nodes) := by
  induction h generalizing w links coverage' with
  | nil => cases hres; exact ⟨w, .refl hf⟩
  | cons hstep hrun ih =>
    cases hres
    have he := linkStep_extends hext hs hstep
    obtain ⟨w₁, h₁⟩ := linkStep_frames hext hadds hs hf hstep
    obtain ⟨w', h'⟩ := ih he.sound h₁.frames rfl
    rw [he.path] at h'
    exact ⟨w', h₁.trans h' he.nodes (linkRun_extends hext he.sound hrun).nodes⟩
  | refused => cases hres
  | refusedLater => cases hres

theorem trial_frames (hext : Extending deeper) (hadds : AddsFrames deeper) (hs : Sound s)
    (hf : Frames s.nodes w) (hpath : s.path = pathKey o ctx.scale :: p)
    (hp : pathKey o ctx.scale ∉ p) {id : Nat} {coverage : Coverage α}
    (h : Trial deeper o ctx c s (some (id, coverage)) s') :
    ∃ w', Framing p s w s' w' [id] := by
  cases h with
  | made hrun _ =>
    obtain ⟨w₁, h₁⟩ := linkRun_frames hext hadds hs hf hrun rfl
    rw [hpath] at h₁
    exact ⟨_, h₁.push (linkRun_extends hext hs hrun).nodes (fun _ => List.mem_cons_of_mem _)
      (.inl ⟨List.mem_cons_self, hp⟩)⟩

theorem tryRun_accepted {limits : Limits α} {cs : List (Candidate α)} {accepted : List Nat}
    {covered : Coverage α} {res : List Nat × Coverage α}
    (h : TryRun limits deeper o ctx cs accepted covered s res s') : ∀ i ∈ accepted, i ∈ res.1 := by
  induction h with
  | nil => exact fun _ hi => hi
  | complete => exact fun _ hi => hi
  | late => exact fun _ hi => hi
  | skipped _ _ _ ih => exact ih
  | dropped _ _ _ _ _ ih => exact ih
  | accepted _ _ _ _ _ ih => exact fun i hi => ih i (List.mem_append_left _ hi)

theorem tryRun_frames {limits : Limits α} (hext : Extending deeper) (hadds : AddsFrames deeper)
    (hs : Sound s) (hf : Frames s.nodes w) (hpath : s.path = pathKey o ctx.scale :: p)
    (hp : pathKey o ctx.scale ∉ p) {cs : List (Candidate α)} {accepted : List Nat}
    {covered : Coverage α} {res : List Nat × Coverage α} (ha : ∀ i ∈ accepted, i < s.nodes.length)
    (h : TryRun limits deeper o ctx cs accepted covered s res s') :
    ∃ w', Framing p s w s' w' res.1 := by
  induction h generalizing w with
  | nil => exact ⟨w, .refl hf⟩
  | complete => exact ⟨w, .refl hf⟩
  | late => exact ⟨w, (Framing.refl hf).congr' (by simp)⟩
  | @skipped _ _ _ _ s _ _ _ _ _ ih =>
    have he : Extends s (s.look limits).2 [] := hs.look
    obtain ⟨w', h'⟩ := ih he.sound (by simpa using hf) (by simpa using hpath) (by simpa using ha)
    exact ⟨w', h'.congr (by simp)⟩
  | @dropped _ _ _ _ s s₁ _ _ _ _ _ htrial _ _ ih =>
    have hlook : Extends s (s.look limits).2 [] := hs.look
    have he := hlook.trans (trial_extends hext hlook.sound htrial)
    have hback := he.rollback
    have hnodes := he.nodes_rollback
    obtain ⟨w', h'⟩ := ih hback.sound (hnodes ▸ hf) (hback.path.trans hpath) (by rwa [hnodes])
    exact ⟨w', h'.congr hnodes.symm⟩
  | @accepted _ _ _ _ _ id s s₁ _ _ _ _ htrial _ hrun ih =>
    have hlook : Extends s (s.look limits).2 [] := hs.look
    have he : Extends s s₁ [id] := hlook.trans (trial_extends hext hlook.sound htrial)
    obtain ⟨w₁, h₁⟩ := trial_frames hext hadds hlook.sound (by simpa using hf)
      (by simpa using hpath) hp htrial
    have h₁ : Framing p s w s₁ w₁ [id] := h₁.congr (by simp)
    have ha₁ := he.found_append ha
    obtain ⟨w', h'⟩ := ih he.sound h₁.frames (he.path.trans hpath) ha₁
    refine ⟨w', (h₁.trans h' he.nodes (tryRun_extends hext he.sound ha₁ hrun).nodes).mono ?_⟩
    intro i hi
    rcases List.mem_append.mp hi with hi | hi
    · exact tryRun_accepted hrun i (List.mem_append_right _ hi)
    · exact hi

theorem branchStep_frames {sources : Sources α} {limits : Limits α} {remaining : Nat}
    {b : Branch α} (hadds : ∀ n < remaining, AddsFrames (branch sources limits n)) (hs : Sound s)
    (hf : Frames s.nodes w) (h : BranchStep sources limits remaining o ctx s b s') :
    ∃ w', Framing s.path s w s' w' b.nodes := by
  cases h with
  | cycle => exact ⟨w, (Framing.refl hf).congr' rfl⟩
  | tooDeep => exact ⟨w, (Framing.refl hf).congr' rfl⟩
  | kept => exact ⟨w, .refl hf⟩
  | late => exact ⟨w, (Framing.refl hf).congr' (by simp)⟩
  | @searched remaining _ _ s s₁ found _ _ hpath _ _ hrun =>
    obtain ⟨w', h'⟩ := tryRun_frames (branch_extends sources limits remaining)
      (hadds remaining (Nat.lt_succ_self _)) (entered_sound hs) (by simpa [entered] using hf)
      (by simp [entered]) hpath (by simp) hrun
    have h' : Framing s.path s w s₁ w' _ := h'.congr (by simp [entered])
    exact ⟨w', (h'.congr' (by simp [left])).mono (by simp)⟩

theorem branch_frames (sources : Sources α) (limits : Limits α) (remaining : Nat) :
    AddsFrames (branch sources limits remaining) := by
  induction remaining using Nat.strongRecOn with
  | ind remaining ih => exact fun hs hf h => branchStep_frames ih hs hf (branchStep h)

end Search

/-! ## Resolutions -/

namespace Resolution

theorem resolve_branch {sources : Sources α} {limits : Limits α} {o : Observable}
    {ctx : Context α} {r : Resolution α} (h : resolve sources limits o ctx = .ok r) :
    ∃ b s, Search.branch sources limits (limits.maxDepth + 1) o ctx {} = .ok (b, s) ∧
      r.nodes = s.nodes ∧ r.roots = b.nodes ∧ r.coverage = b.coverage ∧ r.outcome = b.outcome ∧
        r.notifications = s.notifications := by
  unfold resolve at h
  match hb : Search.branch sources limits (limits.maxDepth + 1) o ctx {} with
  | .error e => rw [hb] at h; cases h
  | .ok (b, s) => rw [hb] at h; cases h; exact ⟨b, s, rfl, rfl, rfl, rfl, rfl, rfl⟩

/-- The nodes of a resolution are in order, and its roots are among them. -/
theorem resolve_ordered {sources : Sources α} {limits : Limits α} {o : Observable}
    {ctx : Context α} {r : Resolution α} (h : resolve sources limits o ctx = .ok r) :
    Ordered r.nodes ∧ ∀ i ∈ r.roots, i < r.nodes.length := by
  obtain ⟨b, s, hb, hn, hr, -⟩ := resolve_branch h
  have he := Search.branch_extends sources limits _ .start hb
  rw [hn, hr]
  exact ⟨he.sound.ordered, he.found⟩

theorem resolve_frames {sources : Sources α} {limits : Limits α} {o : Observable}
    {ctx : Context α} {r : Resolution α} (h : resolve sources limits o ctx = .ok r) :
    ∃ w, Frames r.nodes w ∧ ∀ i < r.nodes.length, i ∈ r.roots ∨ Framed r.nodes w i := by
  obtain ⟨b, s, hb, hn, hr, -⟩ := resolve_branch h
  obtain ⟨w, hw⟩ := Search.branch_frames sources limits _ .start (Frames.nil (w := id)) hb
  rw [hn, hr]
  exact ⟨w, hw.frames, fun i hi => hw.framed i hi (Nat.zero_le i)⟩

end Resolution

end Obsplan
