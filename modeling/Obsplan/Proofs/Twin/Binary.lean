import Obsplan.Proofs.Observable.Grammar
import Obsplan.Proofs.Scale.Binary
import Obsplan.Proofs.Value.Binary
import Obsplan.Twin.Binary

/-!
# Twins read back from binary

Everything that a twin holds is read back as it was written, but for the default values of
observables, as long as observables are named by words. Nothing else is ever read.
-/

namespace Obsplan

open Obsplan.Binary

/-! ## Identifiers and observables -/

theorem Identifier.reads_decode (i : Identifier) : Reads decode i.encode i := by
  refine (reads_word i.lt).last ?_
  rw [ofNat?, dif_pos ⟨i.pos, i.lt⟩]
  exact .pure i

theorem Observable.reads_decode {o : Observable} (hname : ∀ name ∈ o.statedName, Text.IsWord name)
    (hlength : o.encode.length < UInt64.size) : Reads decode o.encode o.withoutDefault := by
  refine (reads_text hlength).last ?_
  rw [ofText_text hname]
  exact .pure _

theorem Observable.yields_decode :
    Yields decode fun o => ∀ name ∈ o.statedName, Text.IsWord name := by
  refine (Yields.any Binary.text).bind fun definition _ => ?_
  split
  · exact .pure (isWord_of_ofText ‹_›)
  · exact .failure

/-! ## Observations -/

namespace Observation

/-- The observation of the observable without its default value. -/
def withoutDefault {α : Type} [Coordinate α] (o : Observation α) : Observation α :=
  { o with observable := o.observable.withoutDefault }

variable {o : Observation Number}

theorem reads_decode (hname : ∀ name ∈ o.observable.statedName, Text.IsWord name)
    (hvalue : ∀ v ∈ o.value, v.Proper) (hlength : o.encode.length < UInt64.size) :
    Reads decode o.encode o.withoutDefault := by
  simp only [encode, List.length_append] at hlength
  have hoption : Reads (option Value.decode) (encodeOption Value.encode o.value) o.value := by
    refine reads_option fun v hv => Value.reads_decode (hvalue v hv) ?_
    rw [Option.mem_def.mp hv, encodeOption, List.length_cons] at hlength
    omega
  simp only [encode, List.append_assoc]
  exact o.id.reads_decode.bind <| (Observable.reads_decode hname (by omega)).bind <|
    (Scale.reads_decode (by omega)).bind <| (Coverage.reads_decode (by omega)).bind <|
    hoption.bind <| (reads_bool _).last (.pure _)

theorem yields_decode :
    Yields decode fun o => ∀ name ∈ o.observable.statedName, Text.IsWord name :=
  (Yields.any _).bind fun _ _ => Observable.yields_decode.bind fun _ hname =>
    (Yields.any _).bind fun _ _ => (Yields.any _).bind fun _ _ => (Yields.any _).bind fun _ _ =>
      (Yields.any _).bind fun _ _ => .pure hname

end Observation

/-! ## Activities -/

theorem reads_word64 (n : UInt64) : Reads word64 (encodeWord n.toNat) n := by
  refine (reads_word n.toNat_lt).last ?_
  rw [UInt64.ofNat_toNat]
  exact .pure n

theorem ActivityKind.reads_decode (k : ActivityKind) : Reads decode k.encode k := by
  cases k with
  | resolution => exact (reads_case (by decide)).last (.pure _)
  | contextualization => exact (reads_case (by decide)).last (.pure _)

theorem Status.reads_decode {s : Status} (hlength : s.encode.length < UInt64.size) :
    Reads decode s.encode s := by
  cases s with
  | running => exact (reads_case (by decide)).last (.pure _)
  | succeeded => exact (reads_case (by decide)).last (.pure _)
  | cancelled => exact (reads_case (by decide)).last (.pure _)
  | failed message =>
    simp only [encode, List.length_append] at hlength
    exact (reads_case (by decide)).bind ((reads_text (by omega)).last (.pure _))

theorem Activity.reads_decode {a : Activity} (hlength : a.encode.length < UInt64.size) :
    Reads decode a.encode a := by
  simp only [encode, List.length_append] at hlength
  simp only [encode, List.append_assoc]
  exact (reads_word64 _).bind <| a.kind.reads_decode.bind <| (reads_text (by omega)).bind <|
    (Status.reads_decode (by omega)).last (.pure _)

/-! ## Nodes and edges -/

namespace TwinNode

/-- A node without the default value of what was observed. -/
def withoutDefault {α : Type} [Coordinate α] : TwinNode α → TwinNode α
  | .observation o => .observation o.withoutDefault
  | .activity a => .activity a
  | .agent name => .agent name

@[simp] theorem key_withoutDefault {α : Type} [Coordinate α] (n : TwinNode α) :
    n.withoutDefault.key = n.key := by
  cases n <;> rfl

/-- What is observed is named by a word, or not at all. -/
def Named {α : Type} [Coordinate α] (n : TwinNode α) : Prop :=
  ∀ o ∈ n.observation?, ∀ name ∈ o.observable.statedName, Text.IsWord name

/-- The maps in an observed value name each entry once. -/
def Proper {α : Type} [Coordinate α] (n : TwinNode α) : Prop :=
  ∀ o ∈ n.observation?, ∀ v ∈ o.value, v.Proper

theorem reads_decode {n : TwinNode Number} (hname : n.Named) (hvalue : n.Proper)
    (hlength : n.encode.length < UInt64.size) : Reads decode n.encode n.withoutDefault := by
  cases n with
  | observation o =>
    simp only [encode, List.length_append] at hlength
    exact (reads_case (by decide)).bind
      ((Observation.reads_decode (hname o rfl) (hvalue o rfl) (by omega)).last (.pure _))
  | activity a =>
    simp only [encode, List.length_append] at hlength
    exact (reads_case (by decide)).bind ((Activity.reads_decode (by omega)).last (.pure _))
  | agent name =>
    simp only [encode, List.length_append] at hlength
    exact (reads_case (by decide)).bind ((reads_text (by omega)).last (.pure _))

theorem yields_decode : Yields decode Named := by
  refine (Yields.any case).bind fun n _ => ?_
  split
  · refine Observation.yields_decode.bind fun o hname => .pure fun o' ho' => ?_
    cases ho'
    exact hname
  · exact (Yields.any _).bind fun a _ => .pure fun o ho => nomatch ho
  · exact (Yields.any _).bind fun name _ => .pure fun o ho => nomatch ho
  · exact .failure

theorem encode_ne_nil (n : TwinNode Number) : n.encode ≠ [] := by
  cases n <;> simp [encode, encodeCase, natBytes]

end TwinNode

theorem NodeKey.reads_decode {k : NodeKey} (hlength : k.encode.length < UInt64.size) :
    Reads decode k.encode k := by
  cases k with
  | observation i => exact (reads_case (by decide)).bind (i.reads_decode.last (.pure _))
  | activity n => exact (reads_case (by decide)).bind ((reads_word64 n).last (.pure _))
  | agent name =>
    simp only [encode, List.length_append] at hlength
    exact (reads_case (by decide)).bind ((reads_text (by omega)).last (.pure _))

theorem Relationship.reads_decode (r : Relationship) : Reads decode r.encode r := by
  cases r with
  | generated => exact (reads_case (by decide)).last (.pure _)
  | associatedWith => exact (reads_case (by decide)).last (.pure _)
  | childOf => exact (reads_case (by decide)).last (.pure _)
  | used => exact (reads_case (by decide)).last (.pure _)

theorem Edge.reads_decode {e : Edge} (hlength : e.encode.length < UInt64.size) :
    Reads decode e.encode e := by
  simp only [encode, List.length_append] at hlength
  simp only [encode, List.append_assoc]
  exact (NodeKey.reads_decode (by omega)).bind <| e.relationship.reads_decode.bind <|
    (NodeKey.reads_decode (by omega)).last (.pure _)

theorem Edge.encode_ne_nil (e : Edge) : e.encode ≠ [] := by
  cases h : e.relationship <;> simp [encode, h, Relationship.encode, encodeCase, natBytes]

/-! ## Snapshots -/

namespace Snapshot

theorem reads_decode {s : Snapshot Number} (hname : ∀ n ∈ s.nodes, n.Named)
    (hvalue : ∀ n ∈ s.nodes, n.Proper)
    (hlength : s.encode.length < UInt64.size) :
    Reads decode s.encode ⟨s.nodes.map TwinNode.withoutDefault, s.edges⟩ := by
  simp only [encode, List.length_append] at hlength
  have hnodes := reads_listBy TwinNode.withoutDefault (fun n _ => n.encode_ne_nil)
    (fun n hn => TwinNode.reads_decode (hname n hn) (hvalue n hn))
    (show (encodeList TwinNode.encode s.nodes).length < _ by omega)
  have hedges := reads_list (fun e _ => e.encode_ne_nil) (fun e _ => Edge.reads_decode)
    (show (encodeList Edge.encode s.edges).length < _ by omega)
  exact hnodes.bind (hedges.last (.pure _))

/-- Whatever is read is named by words. -/
theorem yields_decode : Yields decode fun s => ∀ n ∈ s.nodes, n.Named :=
  (TwinNode.yields_decode.list).bind fun _ hnodes => (Yields.any _).bind fun _ _ => .pure hnodes

end Snapshot

end Obsplan
