import Obsplan.Proofs.Context.Layers
import Obsplan.Proofs.Value.Equality

/-!
# Constraints that are layered

Constraints are known by their names, in order, and by what is given for each name. Where a name is
in both of two layers, its constraints are joined: the later one stands if the name holds a single
value, and otherwise the values that are not there yet go behind those that are. Main statement:
layering is associative and idempotent, and no constraints at all are its unit.
-/

namespace Obsplan

/-! ## Joining -/

namespace Constraint

variable {values others : List Value} {v : Value} {c d e : Constraint}

theorem joinValues_cons (values others : List Value) (v : Value) :
    joinValues values (v :: others) = joinValues (joinValues values [v]) others := rfl

theorem joinValues_singleton (values : List Value) (v : Value) :
    joinValues values [v] = if values.any (· == v) then values else values ++ [v] := rfl

theorem joinValues_concat (values others : List Value) (v : Value) :
    joinValues values (others ++ [v]) = joinValues (joinValues values others) [v] := by
  simp [joinValues]

/-- The values that are not there yet go behind those that are, each once. -/
theorem joinValues_eq (values others : List Value) : joinValues values others =
    values ++ (others.filter fun v => !values.any (· == v)).eraseDups := by
  induction others generalizing values with
  | nil => simp [joinValues]
  | cons v others ih =>
    rw [joinValues_cons, joinValues_singleton]
    by_cases hv : values.any (· == v) = true
    · rw [if_pos hv, ih, List.filter_cons_of_neg (by simp [hv])]
    · have hnew : (!values.any (· == v)) = true := by simpa using hv
      -- what equals the new value is now there, so it would be dropped either way
      have hfilter : (others.filter fun w => !(values ++ [v]).any (· == w)) =
          (others.filter fun w => !values.any (· == w)).filter fun w => !w == v := by
        rw [List.filter_filter]
        refine List.filter_congr fun w _ => ?_
        simp [Value.beq_comm v w, Bool.and_comm]
      rw [if_neg hv, ih, List.filter_cons_of_pos (by exact hnew), List.eraseDups_cons, hfilter,
        List.append_assoc, List.singleton_append]

theorem mem_joinValues (h : v ∈ joinValues values others) : v ∈ values ∨ v ∈ others := by
  induction others generalizing values with
  | nil => exact .inl h
  | cons w others ih =>
    rw [joinValues_cons, joinValues_singleton] at h
    obtain h | h := ih h
    · split at h
      · exact .inl h
      · obtain h | h := List.mem_append.mp h
        · exact .inl h
        · rw [List.mem_singleton.mp h]
          exact .inr List.mem_cons_self
    · exact .inr (List.mem_cons_of_mem w h)

/-- Joined values hold an equal of each value of either side. -/
theorem any_joinValues (values others : List Value) (v : Value) :
    (joinValues values others).any (· == v) = (values.any (· == v) || others.any (· == v)) := by
  induction others generalizing values with
  | nil => simp [joinValues]
  | cons w others ih =>
    rw [joinValues_cons, ih, joinValues_singleton, List.any_cons, ← Bool.or_assoc]
    congr 1
    split
    · rename_i hw
      obtain ⟨u, hu, huw⟩ := List.any_eq_true.mp hw
      cases hwv : w == v with
      | false => simp
      | true =>
        rw [Bool.or_true]
        exact List.any_eq_true.mpr ⟨u, hu, Value.beq_trans huw hwv⟩
    · simp

theorem joinValues_assoc (us vs ws : List Value) :
    joinValues (joinValues us vs) ws = joinValues us (joinValues vs ws) := by
  induction ws generalizing vs with
  | nil => rfl
  | cons w ws ih =>
    rw [joinValues_cons, joinValues_cons vs, ← ih]
    congr 1
    rw [joinValues_singleton vs]
    split
    · rename_i hw
      rw [joinValues_singleton, if_pos]
      rw [any_joinValues, hw, Bool.or_true]
    · exact (joinValues_concat us vs w).symm

theorem joinValues_of_present (h : ∀ v ∈ others, values.any (· == v) = true) :
    joinValues values others = values := by
  rw [joinValues_eq, List.filter_eq_nil_iff.mpr (by simpa using h)]
  simp

theorem join_assoc (h : d.name = c.name) : (c.join d).join e = c.join (d.join e) := by
  by_cases hc : isSingle c.name = true
  · simp [join, h, hc]
  · simp [join, h, hc, joinValues_assoc]

/-- Whether all values of a constraint equal themselves. -/
def IsDefined (c : Constraint) : Prop := ∀ v ∈ c.values, v.isDefined = true

theorem join_self (h : c.IsDefined) : c.join c = c := by
  have hpresent : ∀ v ∈ c.values, c.values.any (· == v) = true := fun v hv =>
    List.any_eq_true.mpr ⟨v, hv, Value.beq_refl (h v hv)⟩
  simp [join, joinValues_of_present hpresent]

theorem IsDefined.join (hc : c.IsDefined) (hd : d.IsDefined) : (c.join d).IsDefined := by
  intro v hv
  unfold Constraint.join at hv
  split at hv
  · exact hd v hv
  · exact (mem_joinValues hv).elim (hc v) (hd v)

end Constraint

theorem TextSet.ofList_union {ts us vs : List String} (h : ∀ t, t ∈ ts ↔ t ∈ us ∨ t ∈ vs) :
    ofList ts = (ofList us).union (ofList vs) := by
  refine eq_of_mem_iff (pairwise_ofList ts) (pairwise_insertAll (pairwise_ofList us)) fun t => ?_
  rw [mem_union, Search.mem_ofList, Search.mem_ofList, Search.mem_ofList, h]

/-! ## Names and what is given for them -/

namespace Constraints

variable {a b c cs : Constraints} {d : Constraint} {name : String}

/-- The names of constraints, in order. -/
def names (cs : Constraints) : List String := cs.toList.map Constraint.name

theorem get?_eq_none_iff : cs.get? name = none ↔ name ∉ cs.names := by
  simp [get?, names]

theorem names_add (cs : Constraints) (d : Constraint) : (cs.add d).names =
    if d.name ∈ cs.names then cs.names else cs.names ++ [d.name] := by
  obtain ⟨cs⟩ := cs
  simp only [names, add]
  induction cs with
  | nil => simp [addIn]
  | cons e es ih =>
    by_cases he : e.name = d.name
    · simp [addIn, he, Constraint.name_join]
    · have he' : d.name ≠ e.name := Ne.symm he
      rw [addIn, if_neg he, List.map_cons, ih]
      by_cases hmem : d.name ∈ es.map Constraint.name <;> simp [hmem, he']

/-- Constraints are known by their names and by what is given for each of them. -/
theorem ext_get? (hnames : a.names = b.names) (hnodup : a.names.Nodup)
    (h : ∀ name ∈ a.names, a.get? name = b.get? name) : a = b := by
  obtain ⟨as⟩ := a
  obtain ⟨bs⟩ := b
  congr 1
  simp only [names, get?] at hnames hnodup h
  induction as generalizing bs with
  | nil => simpa using hnames.symm
  | cons a as ih =>
    cases bs with
    | nil => simp at hnames
    | cons b bs =>
      simp only [List.map_cons, List.cons.injEq] at hnames
      simp only [List.map_cons, List.nodup_cons] at hnodup
      simp only [List.map_cons, List.forall_mem_cons] at h
      obtain ⟨hhead, htail⟩ := h
      -- what is found under the first name is what comes first, and that name does not come again
      obtain rfl : a = b := by simpa [hnames.1] using hhead
      have hrest : ∀ name ∈ as.map Constraint.name,
          as.find? (fun c => c.name == name) = bs.find? (fun c => c.name == name) := by
        intro name hname
        have hne : a.name ≠ name := by
          rintro rfl
          exact hnodup.1 hname
        simpa [hne] using htail name hname
      rw [ih hnodup.2 bs hnames.2 hrest]

/-! ## Layers -/

theorem merge_cons (a : Constraints) (d : Constraint) (ds : List Constraint) :
    a.merge ⟨d :: ds⟩ = (a.add d).merge ⟨ds⟩ := rfl

theorem names_merge (hb : b.names.Nodup) :
    (a.merge b).names = a.names ++ b.names.filter (· ∉ a.names) := by
  obtain ⟨ds⟩ := b
  induction ds generalizing a with
  | nil => simp [merge, names]
  | cons d ds ih =>
    obtain ⟨hd, hds⟩ := List.nodup_cons.mp hb
    have hnames : names ⟨d :: ds⟩ = d.name :: names ⟨ds⟩ := rfl
    rw [merge_cons, ih hds, names_add, hnames]
    by_cases hmem : d.name ∈ a.names
    · simp [hmem]
    · -- the name is there from now on, and does not come again
      have hrest : (names ⟨ds⟩).filter (· ∉ a.names ++ [d.name]) =
          (names ⟨ds⟩).filter (· ∉ a.names) := by
        refine List.filter_congr fun name hname => ?_
        have hne : name ≠ d.name := by
          rintro rfl
          exact hd hname
        simp [hne]
      rw [if_neg hmem, hrest, List.filter_cons_of_pos (by simpa using hmem)]
      simp

theorem get?_merge (hb : b.names.Nodup) (name : String) :
    (a.merge b).get? name = (a.get? name).merge Constraint.join (b.get? name) := by
  obtain ⟨ds⟩ := b
  induction ds generalizing a with
  | nil =>
    change a.get? name = (a.get? name).merge Constraint.join none
    cases a.get? name <;> rfl
  | cons d ds ih =>
    obtain ⟨hd, hds⟩ := List.nodup_cons.mp hb
    rw [merge_cons, ih hds, get?_add]
    by_cases hname : d.name = name
    · subst hname
      have hrest : get? ⟨ds⟩ d.name = none := get?_eq_none_iff.mpr hd
      have hfirst : get? ⟨d :: ds⟩ d.name = some d := by simp [get?]
      rw [if_pos rfl, hrest, hfirst]
      cases a.get? d.name <;> rfl
    · have hfirst : get? ⟨d :: ds⟩ name = get? ⟨ds⟩ name := by simp [get?, hname]
      rw [if_neg hname, hfirst]

theorem nodup_names_add (h : cs.names.Nodup) (d : Constraint) : (cs.add d).names.Nodup := by
  rw [names_add]
  split
  · exact h
  · rename_i hd
    exact List.nodup_append_comm.mp (List.nodup_cons.mpr ⟨hd, h⟩)

theorem nodup_names_merge (h : a.names.Nodup) (b : Constraints) : (a.merge b).names.Nodup :=
  List.foldlRecOn (motive := fun cs => cs.names.Nodup) b.toList add h
    fun _ hcs d _ => nodup_names_add hcs d

theorem merge_assoc (ha : a.names.Nodup) (hb : b.names.Nodup) (hc : c.names.Nodup) :
    (a.merge b).merge c = a.merge (b.merge c) := by
  have hbc : (b.merge c).names.Nodup := nodup_names_merge hb c
  refine ext_get? ?_ (nodup_names_merge (nodup_names_merge ha b) c) fun name _ => ?_
  · rw [names_merge hc, names_merge hbc, names_merge hb, names_merge hc, List.filter_append,
      List.filter_filter, List.append_assoc]
    congr 2
    refine List.filter_congr fun name _ => ?_
    simp only [List.mem_append, List.mem_filter, decide_eq_true_eq, ← Bool.decide_and]
    rw [decide_eq_decide]
    tauto
  · rw [get?_merge hc, get?_merge hbc, get?_merge hb, get?_merge hc]
    cases hx : a.get? name with
    | none => cases b.get? name <;> cases c.get? name <;> rfl
    | some x =>
      cases hy : b.get? name with
      | none => cases c.get? name <;> rfl
      | some y =>
        cases c.get? name with
        | none => rfl
        | some z =>
          have hname : y.name = x.name := (name_of_get? hy).trans (name_of_get? hx).symm
          exact congrArg some (Constraint.join_assoc hname)

theorem empty_merge (ha : a.names.Nodup) : empty.merge a = a := by
  have hnames : (empty.merge a).names = a.names := by
    rw [names_merge ha]
    simp [names, empty]
  refine ext_get? hnames (hnames ▸ ha) fun name _ => ?_
  rw [get?_merge ha]
  cases a.get? name <;> rfl

theorem merge_self (ha : a.names.Nodup) (hdefined : ∀ d ∈ a.toList, d.IsDefined) :
    a.merge a = a := by
  have hnames : (a.merge a).names = a.names := by
    rw [names_merge ha]
    simp
  refine ext_get? hnames (hnames ▸ ha) fun name _ => ?_
  rw [get?_merge ha]
  cases hget : a.get? name with
  | none => rfl
  | some d =>
    exact congrArg some (Constraint.join_self (hdefined d (List.mem_of_find?_eq_some hget)))

/-- The later constraint stands as it is if its name holds a single value or is new. -/
theorem values_merge (hb : b.names.Nodup) (name : String) : (a.merge b).values name =
    if name ∈ b.names ∧ (Constraint.isSingle name = true ∨ name ∉ a.names) then b.values name
    else Constraint.joinValues (a.values name) (b.values name) := by
  have hmem : ∀ cs : Constraints, name ∈ cs.names ↔ cs.get? name ≠ none := fun cs =>
    not_iff_not.mp (by rw [← get?_eq_none_iff, not_not])
  simp only [values, get?_merge hb, hmem]
  cases hx : a.get? name with
  | none => cases b.get? name <;> simp [Constraint.joinValues]
  | some x =>
    have hname : x.name = name := name_of_get? hx
    cases b.get? name with
    | none => simp [Constraint.joinValues]
    | some y => by_cases hsingle : Constraint.isSingle name = true <;>
        simp [Constraint.join, hname, hsingle]

theorem values_merge_of_single (hb : b.names.Nodup) (hname : name ∈ b.names)
    (hsingle : Constraint.isSingle name = true) : (a.merge b).values name = b.values name := by
  rw [values_merge hb, if_pos ⟨hname, .inl hsingle⟩]

theorem mem_texts_merge {t : String} (hb : b.names.Nodup)
    (hsingle : Constraint.isSingle name = false) :
    t ∈ (a.merge b).texts name ↔ t ∈ a.texts name ∨ t ∈ b.texts name := by
  rw [mem_texts, mem_texts, mem_texts, values_merge hb]
  split
  · rename_i h
    have hnone : a.get? name = none := get?_eq_none_iff.mpr (by simpa [hsingle] using h.2)
    simp [values, hnone]
  · exact Constraint.text_mem_joinValues

/-! ## What layers mean -/

/-- Constraints that come from adding, collecting and layering constraints whose values equal
themselves. -/
inductive Built : Constraints → Prop
  | empty : Built empty
  | add {cs : Constraints} {d : Constraint} (hcs : Built cs) (hd : d.IsDefined) : Built (cs.add d)
  | merge {a b : Constraints} (ha : Built a) (hb : Built b) : Built (a.merge b)
  | collect {list : List Constraint} (hlist : ∀ d ∈ list, d.IsDefined) : Built (ofList list)

theorem mem_addIn {e : Constraint} {es : List Constraint} (h : e ∈ addIn d es) :
    e ∈ es ∨ e = d ∨ ∃ e' ∈ es, e = e'.join d := by
  induction es with
  | nil => exact .inr (.inl (List.mem_singleton.mp h))
  | cons x xs ih =>
    unfold addIn at h
    split at h
    · obtain rfl | h := List.mem_cons.mp h
      · exact .inr (.inr ⟨x, List.mem_cons_self, rfl⟩)
      · exact .inl (List.mem_cons_of_mem x h)
    · obtain rfl | h := List.mem_cons.mp h
      · exact .inl List.mem_cons_self
      · obtain h | h | ⟨e', he', h⟩ := ih h
        · exact .inl (List.mem_cons_of_mem x h)
        · exact .inr (.inl h)
        · exact .inr (.inr ⟨e', List.mem_cons_of_mem x he', h⟩)

theorem isDefined_add (hcs : ∀ e ∈ cs.toList, e.IsDefined) (hd : d.IsDefined) :
    ∀ e ∈ (cs.add d).toList, e.IsDefined := by
  intro e he
  obtain he | rfl | ⟨e', he', rfl⟩ := mem_addIn he
  · exact hcs e he
  · exact hd
  · exact (hcs e' he').join hd

theorem isDefined_merge (ha : ∀ d ∈ a.toList, d.IsDefined) (hb : ∀ d ∈ b.toList, d.IsDefined) :
    ∀ d ∈ (a.merge b).toList, d.IsDefined :=
  List.foldlRecOn (motive := fun cs => ∀ d ∈ cs.toList, d.IsDefined) b.toList add ha
    fun _ hcs d hd => isDefined_add hcs (hb d hd)

theorem Built.nodup (h : a.Built) : a.names.Nodup := by
  induction h with
  | empty => exact .nil
  | add _ _ ih => exact nodup_names_add ih _
  | merge _ _ iha _ => exact nodup_names_merge iha _
  | @collect list _ => exact nodup_names_merge (a := Constraints.empty) .nil ⟨list⟩

theorem Built.isDefined (h : a.Built) : ∀ d ∈ a.toList, d.IsDefined := by
  induction h with
  | empty => exact List.forall_mem_nil _
  | add _ hd ih => exact isDefined_add ih hd
  | merge _ _ iha ihb => exact isDefined_merge iha ihb
  | @collect list hlist =>
    exact isDefined_merge (a := Constraints.empty) (b := ⟨list⟩) (List.forall_mem_nil _) hlist

/-- What constraints say that were layered over others. -/
structure Layered (a b m : Constraints) : Prop where
  names : m.names = a.names ++ b.names.filter (· ∉ a.names)
  /-- Values that are not there yet go behind those that are, each once, unless the name is new or
  holds a single value. -/
  values : ∀ name, m.values name =
    if name ∈ b.names ∧ (Constraint.isSingle name = true ∨ name ∉ a.names) then b.values name
    else a.values name ++
      ((b.values name).filter fun v => !(a.values name).any (· == v)).eraseDups
  excluded : m.excludedModels = a.excludedModels.union b.excludedModels
  namespaces : ∀ n, n ∈ m.preferredNamespaces ↔
    n ∈ a.preferredNamespaces ∨ n ∈ b.preferredNamespaces
  projects : ∀ p, p ∈ m.preferredProjects ↔ p ∈ a.preferredProjects ∨ p ∈ b.preferredProjects
  accepts : Constraint.acceptPartialName ∈ b.names → m.acceptPartial? = b.acceptPartial?
  agent : Constraint.provenanceName ∈ b.names → m.provenanceAgent? = b.provenanceAgent?
  scale : Constraint.geometryName ∈ b.names → geometry? m = geometry? b

theorem layered_merge (hb : b.names.Nodup) : Layered a b (a.merge b) where
  names := names_merge hb
  values name := by rw [values_merge hb, Constraint.joinValues_eq]
  excluded := TextSet.ofList_union fun _ => mem_texts_merge hb (by decide)
  namespaces _ := mem_texts_merge hb (by decide)
  projects _ := mem_texts_merge hb (by decide)
  accepts hname := by
    rw [acceptPartial?, values_merge_of_single hb hname (by decide), acceptPartial?]
  agent hname := by
    have hvalues := values_merge_of_single (a := a) hb hname (by decide)
    rw [provenanceAgent?, texts, hvalues, provenanceAgent?, texts]
  scale hname := by
    unfold geometry?
    rw [values_merge_of_single hb hname (by decide)]

/-- Layering is associative and idempotent, and no constraints at all are its unit. Collecting
constraints again changes nothing, no name comes twice, and what is layered later stands or goes
behind. -/
theorem merge_monoid (ha : a.Built) (hb : b.Built) (hc : c.Built) :
    (a.merge b).merge c = a.merge (b.merge c) ∧ empty.merge a = a ∧ a.merge empty = a ∧
      a.merge a = a ∧ ofList a.toList = a ∧ a.names.Nodup ∧ Layered a b (a.merge b) :=
  ⟨merge_assoc ha.nodup hb.nodup hc.nodup, empty_merge ha.nodup, rfl,
    merge_self ha.nodup ha.isDefined, empty_merge ha.nodup, ha.nodup, layered_merge hb.nodup⟩

/-- A note that was made once. -/
def noted : Constraints := empty.add ⟨"note", [.text "dry"]⟩

/-- A note that was made twice. -/
def insistent : Constraints := empty.add ⟨"note", [.text "wet", .text "wet"]⟩

/-- Parts are enough, but not of soil. -/
def lenient : Constraints := ofList [.acceptPartial true, .excludeModel "a.soil"]

theorem built_noted : noted.Built := .add .empty (by simp [Constraint.IsDefined, Value.isDefined])

theorem built_insistent : insistent.Built :=
  .add .empty (by simp [Constraint.IsDefined, Value.isDefined])

theorem built_lenient : lenient.Built := by
  refine .collect ?_
  simp [Constraint.IsDefined, Constraint.acceptPartial, Constraint.excludeModel, Value.isDefined]

theorem merge_monoid_noted :
    (noted.merge insistent).merge lenient = noted.merge (insistent.merge lenient) ∧
    (noted.merge insistent).values "note" = [.text "dry", .text "wet"] ∧
    ((noted.merge insistent).merge lenient).acceptPartial? = some true := by
  obtain ⟨hassoc, -, -, -, -, -, hnote⟩ :=
    merge_monoid built_noted built_insistent built_lenient
  obtain ⟨-, -, -, -, -, -, hpart⟩ :=
    merge_monoid (built_noted.merge built_insistent) built_lenient built_lenient
  refine ⟨hassoc, (hnote.values "note").trans ?_, (hpart.accepts ?_).trans ?_⟩
  · rfl
  · decide
  · rfl

/-- A value that is repeated is dropped behind others and stays where the name is new. So neither
all values that are not in the earlier constraints go behind theirs, nor each of them once. -/
theorem merge_repeats :
    noted.Built ∧ insistent.Built ∧ empty.Built ∧
    (noted.merge insistent).values "note" ≠ noted.values "note" ++
      (insistent.values "note").filter (fun v => !(noted.values "note").any (· == v)) ∧
    (empty.merge insistent).values "note" ≠ empty.values "note" ++
      ((insistent.values "note").filter fun v =>
        !(empty.values "note").any (· == v)).eraseDups := by
  refine ⟨built_noted, built_insistent, .empty, fun h => ?_, fun h => ?_⟩
  · have hlength : 2 = 3 := congrArg List.length h
    omega
  · have hlength : 2 = 1 := congrArg List.length h
    omega

end Constraints

end Obsplan
