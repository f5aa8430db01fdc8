import Obsplan.Proofs.Candidate.Ranking
import Obsplan.Proofs.Version.Text

/-!
# Pinned models

The pin of a model is written as one text: its name, an equals sign and a version. It is read back
for a name that holds no equals sign and has no blanks around it, and then it decides about no other
model. Main statement: what a pin of any name admits to a lookup.
-/

namespace Obsplan

namespace Constraints

/-- The constraints that pin a model to a version. -/
def pinning (urn : String) (v : Version) : Constraints := .ofList [.modelVersion urn v]

/-- The name that a pin written for a model is read for: what comes before the first equals sign,
without the blanks around it. -/
def pinnedName (urn : String) : String :=
  Text.trim (String.ofList (urn.toList.takeWhile (· ≠ '=')))

/-- A version is pinned for a model. -/
def Pins (cs : Constraints) (urn : String) (v : Version) : Prop :=
  ∃ pin, cs.pinnedVersion? urn = some pin ∧ Version.ofText pin = .ok v

variable {urn name : String} {v w : Version} {front rest : List Char}

/-- A pin is parted at its first equals sign. -/
theorem pinnedVersion?_of_eq (h : urn.toList ++ '=' :: v.text.toList = front ++ '=' :: rest)
    (hfront : '=' ∉ front) : (pinning urn v).pinnedVersion? name =
      if Text.trim (String.ofList front) = name then some (Text.trim (String.ofList rest))
      else none := by
  have htexts : (pinning urn v).texts Constraint.modelVersionName = [urn ++ "=" ++ v.text] := rfl
  have hpin : urn ++ "=" ++ v.text = String.ofList (front ++ '=' :: rest) := by
    rw [← h]
    simp [← String.toList_inj, String.toList_append]
  rw [pinnedVersion?, htexts, hpin, List.filterMap_cons_some (Text.splitFirst?_append hfront),
    List.filterMap_nil]
  by_cases hname : Text.trim (String.ofList front) = name
  · simp [hname]
  · simp [hname]

theorem equals_notMem_before (urn : String) : '=' ∉ urn.toList.takeWhile (· ≠ '=') := fun h => by
  simpa using List.mem_takeWhile_imp h

/-- What comes behind the first equals sign of a pin: the version, if the name has none. -/
theorem exists_pin (urn : String) (v : Version) : ∃ rest,
    urn.toList ++ '=' :: v.text.toList = urn.toList.takeWhile (· ≠ '=') ++ '=' :: rest ∧
      ('=' ∉ urn.toList → rest = v.text.toList) ∧ ('=' ∈ urn.toList → '=' ∈ rest) := by
  have hparts := List.takeWhile_append_dropWhile (p := fun c => decide (c ≠ '=')) (l := urn.toList)
  cases hback : urn.toList.dropWhile (fun c => decide (c ≠ '=')) with
  | nil =>
    have hnone : '=' ∉ urn.toList := fun h => by
      simpa using List.dropWhile_eq_nil_iff.mp hback '=' h
    rw [hback, List.append_nil] at hparts
    exact ⟨v.text.toList, by rw [hparts], fun _ => rfl, fun h => absurd h hnone⟩
  | cons c back =>
    have hc : c = '=' := by
      have hhead := List.head?_dropWhile_not (fun c => decide (c ≠ '=')) urn.toList
      rw [hback] at hhead
      simpa using hhead
    subst hc
    have hsome : '=' ∈ urn.toList := by
      rw [← hparts, hback]
      simp
    refine ⟨back ++ '=' :: v.text.toList, ?_, fun h => absurd hsome h, fun _ => by simp⟩
    rw [← List.cons_append, ← hback, ← List.append_assoc, hparts]

/-- A pin applies to one name only, and its version is read back unless the name that it was written
for holds an equals sign. -/
theorem exists_pinnedVersion? (urn : String) (v : Version) : ∃ pin,
    (∀ name, (pinning urn v).pinnedVersion? name =
      if pinnedName urn = name then some pin else none) ∧
    ∀ w, Version.ofText pin = .ok w ↔ '=' ∉ urn.toList ∧ w = v := by
  obtain ⟨rest, hpin, hplain, hmore⟩ := exists_pin urn v
  refine ⟨_, fun name => pinnedVersion?_of_eq hpin (equals_notMem_before urn), fun w => ?_⟩
  by_cases hsign : '=' ∈ urn.toList
  · refine iff_of_false (fun hread => ?_) fun h => h.1 hsign
    have hmem : '=' ∈ (Text.trim (Text.trim (String.ofList rest))).toList := by
      simp only [Text.toList_trim, String.toList_ofList]
      exact Text.mem_trimBoth (by decide) (Text.mem_trimBoth (by decide) (hmore hsign))
    exact absurd (Version.mem_text_of_ofText hread hmem) (by decide)
  · rw [hplain hsign, String.ofList_toList, Text.trim_eq_self fun c => Version.isBlank_of_mem_text,
      Version.ofText_text]
    simp [hsign, eq_comm]

theorem isSome_pinnedVersion? :
    ((pinning urn v).pinnedVersion? name).isSome = true ↔ name = pinnedName urn := by
  obtain ⟨pin, hpin, -⟩ := exists_pinnedVersion? urn v
  rw [hpin]
  split
  · rename_i hname
    exact iff_of_true rfl hname.symm
  · rename_i hname
    exact iff_of_false (by simp) (Ne.symm hname)

theorem pins_iff : (pinning urn v).Pins name w ↔
    name = pinnedName urn ∧ '=' ∉ urn.toList ∧ w = v := by
  obtain ⟨pin, hpin, hread⟩ := exists_pinnedVersion? urn v
  rw [Pins, hpin, ← hread]
  split
  · rename_i hname
    simp [hname]
  · rename_i hname
    simp [Ne.symm hname]

/-- A pin is for the name that it was written for when that has no equals sign in it and no blanks
around it. -/
theorem pinnedName_eq_iff : pinnedName urn = urn ↔ '=' ∉ urn.toList ∧ Text.trim urn = urn := by
  have hsame : '=' ∉ urn.toList → pinnedName urn = Text.trim urn := fun hsign => by
    have hall : ∀ c ∈ urn.toList, decide (c ≠ '=') = true := fun c hc =>
      decide_eq_true fun heq => hsign (heq ▸ hc)
    rw [pinnedName, List.takeWhile_eq_self_iff.mpr hall, String.ofList_toList]
  constructor
  · intro hname
    have hsign : '=' ∉ urn.toList := fun h => by
      rw [← hname, pinnedName, Text.toList_trim, String.toList_ofList] at h
      exact equals_notMem_before urn (Text.mem_of_mem_trimBoth h)
    exact ⟨hsign, (hsame hsign).symm.trans hname⟩
  · exact fun ⟨hsign, htrim⟩ => (hsame hsign).trans htrim

theorem allows_pinning {α : Type} [Coordinate α] {m : Model α} : (pinning urn v).Allows m ↔
    (m.urn = pinnedName urn → '=' ∉ urn.toList ∧ m.version = v) := by
  obtain ⟨pin, hpin, hread⟩ := exists_pinnedVersion? urn v
  have hexcluded : (pinning urn v).excludedModels.toList = [] := rfl
  constructor
  · intro h hname
    exact (hread m.version).mp (h.pinned pin (by simp [hpin, hname]))
  · intro h
    refine ⟨by simp [hexcluded], fun text htext => ?_⟩
    rw [hpin, Option.mem_def] at htext
    split at htext
    · rename_i hname
      cases htext
      exact (hread m.version).mpr (h hname.symm)
    · cases htext

end Constraints


namespace Candidate

open Constraints

variable {α : Type} [Coordinate α] {s : Sources α} {o : Observable} {ctx : Context α}
  {remainder : Coverage α} {urn : String} {v : Version}

/-- Whether a lookup fails does not depend on the constraints. -/
theorem lookup_error (cs cs' : Constraints) {e : CatalogError}
    (h : lookup s o { ctx with constraints := cs } remainder = .error e) :
    lookup s o { ctx with constraints := cs' } remainder = .error e := by
  unfold lookup at h ⊢
  cases hfound : found s o with
  | error e' =>
    rw [hfound] at h
    exact h
  | ok models =>
    rw [hfound] at h
    cases hvalid : (distinct [] models).mapM fun m => m.1.validate with
    | error e' =>
      simp only [bind, Except.bind, hvalid] at h ⊢
      exact h
    | ok checked =>
      simp only [bind, Except.bind, hvalid] at h
      cases h

theorem admitted_iff_allows {cs : Constraints} {m : Model α} : Admitted cs m ↔ cs.Allows m :=
  ⟨Admitted.allows, Constraints.Allows.admitted⟩

/-- Constraints without preferences only choose among the candidates. -/
theorem mem_lookup_constrained {cs : Constraints} {found chosen : Candidates α}
    (hn : cs.preferredNamespaces = []) (hp : cs.preferredProjects = [])
    (hfound : lookup s o { ctx with constraints := .empty } remainder = .ok found)
    (hchosen : lookup s o { ctx with constraints := cs } remainder = .ok chosen)
    (c : Candidate α) : c ∈ chosen.list ↔ c ∈ found.list ∧ cs.Allows c.model := by
  obtain ⟨models, hmodels, hmem⟩ := mem_lookup_iff hfound
  obtain ⟨models', hmodels', hmem'⟩ := mem_lookup_iff hchosen
  cases hmodels.symm.trans hmodels'
  have hempty : ∀ m : Model α, Admitted .empty m := fun m => ⟨rfl, rfl⟩
  have hmake : ofModel? { ctx with constraints := cs } remainder =
      ofModel? { ctx with constraints := .empty } remainder := by
    have hprefers : ∀ m : Model α, prefers cs m = prefers .empty m := fun m => by
      simp only [prefers, hn, hp]
      rfl
    funext f
    simp only [ofModel?, hprefers]
  rw [hmem, hmem', hmake]
  constructor
  · rintro ⟨f, hf, hadmitted, hmade⟩
    exact ⟨⟨f, hf, hempty _, hmade⟩, (of_ofModel? hmade).1 ▸ admitted_iff_allows.mp hadmitted⟩
  · rintro ⟨⟨f, hf, -, hmade⟩, hallows⟩
    exact ⟨f, hf, admitted_iff_allows.mpr ((of_ofModel? hmade).1 ▸ hallows), hmade⟩

/-- A pin is read back as what was written just for the names without equals signs and without
blanks around them, and it is never read for more than one name. Under a pin, the candidates are
those that there are without one, but for the models of that name which do not have the version that
is pinned. -/
theorem lookup_pinning (s : Sources α) (o : Observable) (ctx : Context α) (remainder : Coverage α)
    (urn : String) (v : Version) :
    (∀ name w, (pinning urn v).Pins name w ↔ name = pinnedName urn ∧ '=' ∉ urn.toList ∧ w = v) ∧
    (∀ name, ((pinning urn v).pinnedVersion? name).isSome = true ↔ name = pinnedName urn) ∧
    (pinnedName urn = urn ↔ '=' ∉ urn.toList ∧ Text.trim urn = urn) ∧
    (∀ e, lookup s o { ctx with constraints := pinning urn v } remainder = .error e ↔
      lookup s o { ctx with constraints := .empty } remainder = .error e) ∧
    ∀ found pinned, lookup s o { ctx with constraints := .empty } remainder = .ok found →
      lookup s o { ctx with constraints := pinning urn v } remainder = .ok pinned →
      ∀ c, c ∈ pinned.list ↔ c ∈ found.list ∧
        (c.model.urn = pinnedName urn → '=' ∉ urn.toList ∧ c.model.version = v) := by
  refine ⟨fun name w => pins_iff, fun name => isSome_pinnedVersion?, pinnedName_eq_iff,
    fun e => ⟨lookup_error _ _, lookup_error _ _⟩, fun found pinned hfound hpinned c => ?_⟩
  rw [mem_lookup_constrained rfl rfl hfound hpinned, allows_pinning]

/-! ## Soil under pins -/

open Resolution

theorem lookup_pinning_disputed : ∃ found pinned,
    lookup disputed soil { everywhere with constraints := .empty } (.full .scalar) = .ok found ∧
    lookup disputed soil { everywhere with constraints := pinning "c.soil" ⟨3, 0, 0⟩ }
      (.full .scalar) = .ok pinned ∧
    found.list.map (·.model.urn) = ["a.soil", "b.soil", "c.soil"] ∧
    pinned.list.map (·.model.urn) = ["a.soil", "b.soil"] ∧
    (pinning "c.soil" ⟨3, 0, 0⟩).Pins "c.soil" ⟨3, 0, 0⟩ ∧
    ∀ c, c ∈ pinned.list ↔
      c ∈ found.list ∧ (c.model.urn = "c.soil" → c.model.version = ⟨3, 0, 0⟩) := by
  obtain ⟨found, hfound, hnames⟩ := exists_of_any
    (P := fun r : Candidates Number => r.list.map (·.model.urn) = ["a.soil", "b.soil", "c.soil"])
    (x := lookup disputed soil { everywhere with constraints := .empty } (.full .scalar))
    (by decide +kernel)
  obtain ⟨pinned, hpinned, hleft⟩ := exists_of_any
    (P := fun r : Candidates Number => r.list.map (·.model.urn) = ["a.soil", "b.soil"])
    (x := lookup disputed soil { everywhere with constraints := pinning "c.soil" ⟨3, 0, 0⟩ }
      (.full .scalar))
    (by decide +kernel)
  obtain ⟨hpins, -, hname, -, hmem⟩ :=
    lookup_pinning disputed soil everywhere (.full .scalar) "c.soil" ⟨3, 0, 0⟩
  have hsign : '=' ∉ "c.soil".toList := by decide
  have hsame : pinnedName "c.soil" = "c.soil" := hname.mpr ⟨hsign, by decide +kernel⟩
  refine ⟨found, pinned, hfound, hpinned, hnames, hleft,
    (hpins _ _).mpr ⟨hsame.symm, hsign, rfl⟩, fun c => ?_⟩
  simpa [hsame] using hmem found pinned hfound hpinned c

/-- The pin of a name with an equals sign or with blanks around it is read for another model. -/
theorem pinning_misread :
    (∀ urn ∈ ["m=a", " m"], (needing urn soil []).Usable ∧
      (pinning urn ⟨1, 2, 0⟩).pinnedVersion? urn = none ∧
      ((pinning urn ⟨1, 2, 0⟩).pinnedVersion? "m").isSome = true) ∧
    ∃ found, lookup
        (knowing [needing "m=a" soil [], needing " m" soil [], needing "m" soil []]) soil
        { everywhere with constraints := pinning "m=a" ⟨1, 2, 0⟩ } (.full .scalar) = .ok found ∧
      found.list.map (fun c => (c.model.urn, c.model.version)) = [(" m", {}), ("m=a", {})] := by
  have husable : ∀ urn ∈ ["m=a", " m"], (needing urn soil []).Usable := by
    have hname : ∀ urn ∈ ["m=a", " m"], urn.toList.any (fun c => !Text.isBlank c) = true := by
      decide
    intro urn hurn
    refine ⟨?_, by simp [needing, Model.producing]⟩
    simpa [needing, Model.producing] using hname urn hurn
  have hpins : ∀ urn ∈ ["m=a", " m"], (pinning urn ⟨1, 2, 0⟩).pinnedVersion? urn = none ∧
      ((pinning urn ⟨1, 2, 0⟩).pinnedVersion? "m").isSome = true := by
    decide +kernel
  refine ⟨fun urn hurn => ⟨husable urn hurn, hpins urn hurn⟩, ?_⟩
  exact exists_of_any (P := fun r : Candidates Number =>
    r.list.map (fun c => (c.model.urn, c.model.version)) = [(" m", {}), ("m=a", {})])
    (by decide +kernel)

end Candidate

end Obsplan
