import Obsplan.Proofs.Dataflow.Names
import Obsplan.Proofs.Execution.Invariants
import Obsplan.Proofs.Twin.Binary

/-!
# Twins that are saved and loaded

A twin keeps observables as definitions when it is saved. So what was made by runs is loaded again,
but for default values, exactly when all observables that have names are named by words: a name with
blanks, or none of characters, has no place in a definition.
-/

namespace Obsplan.Twin

variable {t t' : Twin Number} {bytes : List UInt8}

theorem load_eq_ok : load bytes = .ok t ↔
    ∃ s rest, Snapshot.decode bytes = some (s, rest) ∧ ofSnapshot s = .ok t := by
  unfold load
  cases hdecode : Snapshot.decode bytes with
  | none => simp
  | some result =>
    obtain ⟨s, rest⟩ := result
    simp

/-- Twins that begin empty or are loaded, and on which dataflows are run. -/
inductive Reached : Twin Number → Prop
  | new : Reached {}
  | loaded {bytes : List UInt8} {t : Twin Number} (h : load bytes = .ok t) : Reached t
  | run {t : Twin Number} (h : Reached t) (d : Dataflow Number) (registry : Registry Number)
      (agent : String) (ctx : Context Number) (stopped : Bool) (requests : Nat → Bool) :
      Reached (d.run registry agent ctx t stopped requests).2.1

theorem Reached.sound (h : Reached t) : t.Sound := by
  induction h with
  | new => exact .new
  | loaded h =>
    obtain ⟨s, rest, -, hs⟩ := load_eq_ok.mp h
    exact (Sound.of_ofSnapshot hs).1
  | run _ d registry agent ctx stopped requests ih =>
    exact d.sound_run registry agent ctx stopped requests ih

/-! ## Loading what was saved -/

theorem Sound.withoutDefault (h : t.Sound) :
    Sound { t with nodes := t.nodes.map TwinNode.withoutDefault } := by
  have hkeys : (t.nodes.map TwinNode.withoutDefault).map TwinNode.key =
      t.nodes.map TwinNode.key := by
    simp
  refine ⟨hkeys ▸ h.keys, h.edges, fun e he => ?_, fun e he => ?_⟩
  · rw [contains_iff, hkeys, ← contains_iff]
    exact h.source e he
  · rw [contains_iff, hkeys, ← contains_iff]
    exact h.target e he

theorem Sound.load_save (h : t.Sound) (hname : ∀ n ∈ t.nodes, n.Named)
    (hvalue : ∀ n ∈ t.nodes, n.Proper) (hlength : t.save.length < UInt64.size) :
    ∃ t', load t.save = .ok t' ∧ t'.nodes = t.nodes.map TwinNode.withoutDefault ∧
      t'.edges = t.edges :=
  ⟨_, load_eq_ok.mpr ⟨_, _, (Snapshot.reads_decode (s := t.snapshot) hname hvalue hlength).result,
    h.withoutDefault.ofSnapshot_snapshot⟩, rfl, rfl⟩

/-- Whatever is loaded is named by words. -/
theorem named_of_load (h : load bytes = .ok t) : ∀ n ∈ t.nodes, n.Named := by
  obtain ⟨s, rest, hdecode, hs⟩ := load_eq_ok.mp h
  have hnamed := Snapshot.yields_decode _ _ _ hdecode
  exact fun n hn => hnamed n ((Sound.of_ofSnapshot hs).2 hn)

theorem named_of_withoutDefault {n : TwinNode Number} (h : n.withoutDefault.Named) : n.Named := by
  cases n with
  | observation o =>
    intro o' ho'
    cases ho'
    exact h o.withoutDefault rfl
  | activity a => exact h
  | agent name => exact h

/-- A twin is loaded as it was saved, but for default values, exactly when all that was observed is
named by words, or not at all. -/
theorem load_save_iff (h : Reached t) (hvalue : ∀ n ∈ t.nodes, n.Proper)
    (hlength : t.save.length < UInt64.size) :
    (∃ t', load t.save = .ok t' ∧ t'.nodes = t.nodes.map TwinNode.withoutDefault ∧
      t'.edges = t.edges) ↔ ∀ n ∈ t.nodes, n.Named := by
  constructor
  · -- nothing is ever read under a name that is no word
    rintro ⟨t', hload, hnodes, -⟩ n hn
    refine named_of_withoutDefault (named_of_load hload _ ?_)
    rw [hnodes]
    exact List.mem_map_of_mem hn
  · intro hname
    exact h.sound.load_save hname hvalue hlength

/-! ## Names that are words, and others -/

open Resolution

instance (n : TwinNode Number) : Decidable n.Named :=
  inferInstanceAs (Decidable (∀ o ∈ n.observation?, ∀ name ∈ o.observable.statedName,
    Text.IsWord name))

theorem proper_of_asBool? {n : TwinNode Number}
    (h : ∀ o ∈ n.observation?, ∀ v ∈ o.value, (Value.asBool? v).isSome = true) : n.Proper := by
  intro o ho v hv
  cases v with
  | bool b => trivial
  | _ => cases h o ho _ hv

/-- Land needs water under a name, and water is a truth value. -/
def named (name : String) : Sources Number :=
  knowing [needing "x.land" land [{ called name water with defaultValue := some .null }],
    { needing "x.water" water [] with computation := [{ kind := .literal (.bool true) }] }]

/-- The twin after a run that was planned, which may fail. -/
def ran (d : Dataflow Number) : Twin Number := (d.run .builtIn "a" everywhere {} false).2.1

theorem load_save_iff_named :
    ∃ r d rest, resolve (named "w") ({} : Config).limits land everywhere = .ok r ∧
      r.lower none {} = (.ok d, rest) ∧ (ran d).nodes.length = 6 ∧
      (∃ n ∈ (ran d).nodes, ∃ o ∈ n.observation?, o.observable.statedName = some "w") ∧
      ∃ t', load (ran d).save = .ok t' ∧
        t'.nodes = (ran d).nodes.map TwinNode.withoutDefault ∧ t'.edges = (ran d).edges := by
  obtain ⟨r, hr, hran⟩ := exists_of_any (P := fun r : Resolution Number =>
      ((r.lower none {}).1.toOption.any fun d => decide ((ran d).nodes.length = 6 ∧
        (∃ n ∈ (ran d).nodes, ∃ o ∈ n.observation?, o.observable.statedName = some "w") ∧
        (∀ n ∈ (ran d).nodes, n.Named) ∧ (ran d).save.length < UInt64.size ∧
        ∀ n ∈ (ran d).nodes, ∀ o ∈ n.observation?, ∀ v ∈ o.value,
          (Value.asBool? v).isSome = true)) = true)
    (x := resolve (named "w") ({} : Config).limits land everywhere) (by decide +kernel)
  obtain ⟨d, hd, hlength, hw, hnamed, hsize, hvalue⟩ := exists_of_any hran
  exact ⟨r, d, _, hr, Prod.ext hd rfl, hlength, hw,
    (load_save_iff (Reached.new.run d .builtIn "a" everywhere false fun _ => false)
      (fun n hn => proper_of_asBool? (hvalue n hn)) hsize).mpr hnamed⟩

/-- A name of two words is lost: nothing can be loaded. -/
theorem load_save_two_words :
    ∃ r d rest, resolve (named "my w") ({} : Config).limits land everywhere = .ok r ∧
      r.lower none {} = (.ok d, rest) ∧ ∀ t, load (ran d).save ≠ .ok t := by
  obtain ⟨r, hr, hran⟩ := exists_of_any (P := fun r : Resolution Number =>
      ((r.lower none {}).1.toOption.any fun d =>
        decide ((load (ran d).save).toOption.isNone = true)) = true)
    (x := resolve (named "my w") ({} : Config).limits land everywhere) (by decide +kernel)
  obtain ⟨d, hd, hload⟩ := exists_of_any hran
  refine ⟨r, d, _, hr, Prod.ext hd rfl, fun t ht => ?_⟩
  rw [ht] at hload
  cases hload

end Obsplan.Twin
