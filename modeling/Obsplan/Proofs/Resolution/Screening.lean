import Obsplan.Proofs.Candidate.Richer
import Obsplan.Proofs.Context.Preferences
import Obsplan.Proofs.Resolution.Shape
import Obsplan.Proofs.Search.Provenance

/-!
# Excluded and pinned models

A model hands nothing but preferences down to the search for its dependencies, so the models that a
context excludes and the versions that it pins are the same wherever the search goes. Main statement:
no node of a resolution has a model that the context does not allow.
-/

namespace Obsplan

variable {α : Type} [Coordinate α]

/-- The constraints do not exclude the model, and a version that they pin for it is its own. -/
structure Constraints.Allows (cs : Constraints) (m : Model α) : Prop where
  included : m.urn ∉ cs.excludedModels.toList
  pinned : ∀ pin ∈ cs.pinnedVersion? m.urn, Version.ofText pin = .ok m.version

theorem Candidate.Admitted.allows {cs : Constraints} {m : Model α} (h : Admitted cs m) :
    cs.Allows m where
  included := by
    intro hm
    have hcontains : cs.excludedModels.contains m.urn = true := List.contains_iff_mem.mpr hm
    rw [h.1] at hcontains
    cases hcontains
  pinned pin hpin := by
    have htrouble := h.2
    rw [pinTrouble?, Option.mem_def.mp hpin, Option.bind_some] at htrouble
    split at htrouble
    · rename_i required hrequired
      split at htrouble
      · rename_i hsame
        rw [hrequired, hsame]
      · cases htrouble
    · cases htrouble

namespace Search

variable {root ctx : Context α}

theorem Derived.excludedModels (h : Derived root ctx) :
    ctx.constraints.excludedModels = root.constraints.excludedModels := by
  induction h with
  | root => rfl
  | inner _ ih => exact excludedModels_merge.trans ih

theorem Derived.pinnedVersion? (h : Derived root ctx) :
    ctx.constraints.pinnedVersion? = root.constraints.pinnedVersion? := by
  induction h with
  | root => rfl
  | inner _ ih => exact pinnedVersion?_merge.trans ih

/-- Wherever the search goes, the same models are allowed. -/
theorem Derived.allows (h : Derived root ctx) {m : Model α} (hm : ctx.constraints.Allows m) :
    root.constraints.Allows m :=
  ⟨h.excludedModels ▸ hm.included, h.pinnedVersion? ▸ hm.pinned⟩

theorem Ranked.allows {sources : Sources α} {o : Observable} {c : Candidate α}
    (h : Ranked sources o ctx c) : ctx.constraints.Allows c.model := by
  obtain ⟨found, hfound, hc⟩ := h
  obtain ⟨models, -, hmem⟩ := Candidate.mem_lookup_iff hfound
  obtain ⟨f, -, hadmitted, hmade⟩ := (hmem c).mp hc
  obtain ⟨hmodel, -⟩ := Candidate.of_ofModel? hmade
  exact hmodel ▸ hadmitted.allows

end Search

namespace Resolution

/-- However deep a model stands in a resolution, and however it was found, it is not excluded, and
it has the version that is pinned for it. -/
theorem resolve_allows {sources : Sources α} {limits : Limits α} {o : Observable}
    {ctx : Context α} {r : Resolution α} (h : resolve sources limits o ctx = .ok r) :
    ∀ n ∈ r.nodes, ∀ m ∈ n.means.model?, ctx.constraints.Allows m := by
  intro n hn m hm
  obtain ⟨i, hi⟩ := List.mem_iff_getElem?.mp hn
  cases (resolve_documented h).1 hi with
  | standIn _ hs => cases hs <;> cases hm
  | model hctx hc =>
    cases hm
    exact hctx.allows hc.allows

/-- Soil is known by three models, the last one of a later version. -/
def disputed : Sources Number :=
  knowing [needing "x.land" land [{ soil with mode := .any }], needing "a.soil" soil [],
    needing "b.soil" soil [], { needing "c.soil" soil [] with version := ⟨2, 1, 0⟩ }]

/-- One of the soil models is excluded, and the others are pinned. -/
def choosy : Context Number :=
  { everywhere with constraints := .ofList [.excludeModel "a.soil", .preferNamespace "b",
      .modelVersion "b.soil" ⟨1, 0, 0⟩, .modelVersion "c.soil" ⟨2, 1, 0⟩] }

theorem resolve_allows_choosy :
    ∃ r, resolve disputed ({} : Config).limits land choosy = .ok r ∧
      r.models.map Model.urn = ["c.soil", "x.land"] ∧
      ∀ n ∈ r.nodes, ∀ m ∈ n.means.model?, choosy.constraints.Allows m := by
  obtain ⟨r, hr, hmodels⟩ := exists_of_any
    (P := fun r : Resolution Number => r.models.map Model.urn = ["c.soil", "x.land"])
    (x := resolve disputed ({} : Config).limits land choosy) (by decide +kernel)
  exact ⟨r, hr, hmodels, resolve_allows hr⟩

end Resolution

end Obsplan
