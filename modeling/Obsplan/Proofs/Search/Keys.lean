import Obsplan.Proofs.Scale.Text
import Obsplan.Resolution.Search

/-!
# The keys of a search

What a key is made of can be read off it: the concept and how it is asked for, the scale, and the
preferences as long as their names are plain.
-/

namespace Obsplan

/-! ## Observables -/

theorem isName_continues {cs : List Char} (h : isName cs = true) :
    ∀ c ∈ cs, continuesName c = true := by
  match cs with
  | [] => simp
  | first :: rest =>
    simp only [isName, startsName, Bool.and_eq_true, Bool.or_eq_true, List.all_eq_true] at h
    obtain ⟨hfirst, hrest⟩ := h
    refine List.forall_mem_cons.mpr ⟨?_, hrest⟩
    rcases hfirst with hc | hc
    · simp [continuesName, Char.isAlphanum, hc]
    · simp [continuesName, hc]

theorem isConcept_parts {cs : List Char} (h : isConcept cs = true) :
    ∃ before after, cs = before ++ ':' :: after ∧ isName before = true ∧ isName after = true := by
  unfold isConcept at h
  split at h
  · cases h
  · rename_i colon after hafter
    simp only [Bool.and_eq_true] at h
    have hparts := List.takeWhile_append_dropWhile (p := (· ≠ ':')) (l := cs)
    have hcolon := List.head?_dropWhile_not (p := (· ≠ ':')) (l := cs)
    rw [hafter] at hparts hcolon
    rw [show colon = ':' by simpa using hcolon] at hparts
    exact ⟨_, _, hparts.symm, h⟩

theorem isConcept_continues {cs : List Char} (h : isConcept cs = true) :
    ∀ c ∈ cs, continuesName c = true ∨ c = ':' := by
  obtain ⟨before, after, rfl, hbefore, hafter⟩ := isConcept_parts h
  intro c hc
  rw [List.mem_append, List.mem_cons] at hc
  rcases hc with hc | rfl | hc
  · exact .inl (isName_continues hbefore c hc)
  · exact .inr rfl
  · exact .inl (isName_continues hafter c hc)

/-- Blanks and the signs that part keys do not occur in a concept. -/
theorem Concept.notMem_urn (concept : Concept) : ∀ c ∈ [' ', '@', '|'], c ∉ concept.urn.toList := by
  intro c hc hmem
  have hnone : ∀ c ∈ [' ', '@', '|'], ¬ (continuesName c = true ∨ c = ':') := by
    simp [continuesName]
  exact hnone c hc (isConcept_continues concept.isConcept c hmem)

namespace Observable

theorem toList_urn (o : Observable) :
    o.urn.toList = (if o.collective then "each ".toList else []) ++ o.concept.urn.toList := by
  unfold urn
  split
  · simp [String.toList_append]
  · simp

theorem toList_key (o : Observable) :
    o.key.toList = (if o.mode = .any then "any ".toList else []) ++ o.urn.toList := by
  unfold key
  split
  · rename_i h; simp [h]
  · rename_i h; simp [h, String.toList_append]

theorem urn_injective {o o' : Observable} (h : o.urn = o'.urn) :
    o.concept = o'.concept ∧ o.collective = o'.collective := by
  have hlist := congrArg String.toList h
  rw [toList_urn, toList_urn] at hlist
  have hblank := o.concept.notMem_urn ' ' (by decide)
  have hblank' := o'.concept.notMem_urn ' ' (by decide)
  have hconcept : ∀ {a b : Concept}, a.urn.toList = b.urn.toList → a = b := by
    rintro ⟨a, _⟩ ⟨b, _⟩ hab
    cases String.toList_inj.mp hab
    rfl
  cases hc : o.collective <;> cases hc' : o'.collective <;> simp only [hc, hc', if_true,
    Bool.false_eq_true, if_false, List.nil_append] at hlist
  · exact ⟨hconcept hlist, rfl⟩
  · exact absurd (hlist ▸ by simp) hblank
  · exact absurd (hlist ▸ by simp) hblank'
  · exact ⟨hconcept (List.append_cancel_left hlist), rfl⟩

/-- Nothing that is asked for begins like one that may match more. -/
theorem urn_ne_any (o o' : Observable) : o.urn.toList ≠ "any ".toList ++ o'.urn.toList := by
  intro h
  rw [toList_urn o] at h
  split at h
  · simp at h
  · refine o.concept.notMem_urn ' ' (by decide) ?_
    rw [List.nil_append] at h
    rw [h]
    simp

theorem key_injective {o o' : Observable} (h : o.key = o'.key) :
    o.concept = o'.concept ∧ o.collective = o'.collective ∧ o.mode = o'.mode := by
  have hlist := congrArg String.toList h
  rw [toList_key, toList_key] at hlist
  have hboth : o.mode = o'.mode ∧ o.urn = o'.urn := by
    cases hm : o.mode <;> cases hm' : o'.mode <;> simp only [hm, hm', reduceCtorEq, if_true,
      if_false, List.nil_append] at hlist
    · exact ⟨rfl, String.toList_inj.mp hlist⟩
    · exact absurd hlist (urn_ne_any o o')
    · exact absurd hlist.symm (urn_ne_any o' o)
    · exact ⟨rfl, String.toList_inj.mp (List.append_cancel_left hlist)⟩
  obtain ⟨hconcept, hcollective⟩ := urn_injective hboth.2
  exact ⟨hconcept, hcollective, hboth.1⟩

theorem notMem_key (o : Observable) : ∀ c ∈ ['@', '|'], c ∉ o.key.toList := by
  intro c hc hmem
  have hmarks : ∀ c ∈ ['@', '|'], c ∉ "any ".toList ∧ c ∉ "each ".toList := by simp
  rw [toList_key, List.mem_append, toList_urn, List.mem_append] at hmem
  rcases hmem with hmem | hmem | hmem
  · split at hmem
    · exact (hmarks c hc).1 hmem
    · cases hmem
  · split at hmem
    · exact (hmarks c hc).2 hmem
    · cases hmem
  · exact o.concept.notMem_urn c (List.mem_cons_of_mem _ hc) hmem

end Observable

namespace Search

variable {α : Type} [Coordinate α] [LegibleCoordinate α] {o o' : Observable} {s s' : Scale α}
  {cs cs' : Constraints}

theorem pathKey_injective (h : pathKey o s = pathKey o' s') : o.key = o'.key ∧ s = s' := by
  have hlist := congrArg String.toList h
  simp only [pathKey, String.toList_append, List.append_assoc] at hlist
  obtain ⟨hkey, hscale⟩ := part_unique (o.notMem_key '@' (by decide)) (o'.notMem_key '@' (by decide))
    hlist
  exact ⟨String.toList_inj.mp hkey, Scale.text_injective (String.toList_inj.mp hscale)⟩

theorem notMem_pathKey : '|' ∉ (pathKey o s).toList := by
  simp only [pathKey, String.toList_append, List.mem_append, not_or]
  exact ⟨⟨o.notMem_key '|' (by decide), by decide⟩, Scale.notMem_text '|' (by decide)⟩

/-- The part of a key that says what is preferred. -/
def preferenceKey (cs : Constraints) : String :=
  joined cs.preferredNamespaces ++ "|" ++ joined cs.preferredProjects

omit [LegibleCoordinate α] in
/-- A branch key is the key on the path and what is preferred. -/
theorem branchKey_eq (o : Observable) (scale : Scale α) (cs : Constraints) :
    branchKey o scale cs = pathKey o scale ++ ("|" ++ preferenceKey cs) := by
  simp only [branchKey, preferenceKey, String.append_assoc]

theorem branchKey_injective (h : branchKey o s cs = branchKey o' s' cs') :
    o.key = o'.key ∧ s = s' ∧ preferenceKey cs = preferenceKey cs' := by
  have hlist := congrArg String.toList h
  simp only [branchKey, String.toList_append, List.append_assoc] at hlist
  obtain ⟨hpath, hprefs⟩ := part_unique notMem_pathKey notMem_pathKey hlist
  obtain ⟨hkey, hscale⟩ := pathKey_injective (String.toList_inj.mp hpath)
  refine ⟨hkey, hscale, String.toList_inj.mp ?_⟩
  simpa [preferenceKey, String.toList_append] using hprefs

/-! ## Preferences -/

/-- A name that neither is empty nor holds a sign that parts names. -/
def IsPlain (name : String) : Prop := name ≠ "" ∧ ',' ∉ name.toList ∧ '|' ∉ name.toList

instance (name : String) : Decidable (IsPlain name) := inferInstanceAs (Decidable (_ ∧ _ ∧ _))

theorem mem_ofList {t : String} {texts : List String} :
    t ∈ (TextSet.ofList texts).toList ↔ t ∈ texts := by
  rw [TextSet.ofList, TextSet.mem_insertAll]
  simp [TextSet.empty]

theorem toList_joined (texts : List String) :
    (joined texts).toList = [','].intercalate ((TextSet.ofList texts).toList.map String.toList) := by
  rw [joined, String.toList_intercalate]
  rfl

theorem notMem_joined {texts : List String} (h : ∀ t ∈ texts, '|' ∉ t.toList) :
    '|' ∉ (joined texts).toList := by
  intro hmem
  rw [toList_joined] at hmem
  rcases mem_intercalate hmem with hmem | ⟨part, hpart, hmem⟩
  · exact absurd hmem (by decide)
  · obtain ⟨t, ht, rfl⟩ := List.mem_map.mp hpart
    exact h t (mem_ofList.mp ht) hmem

/-- Names without commas can be read off the text that they are joined to. No names are joined to no
text, which reads as an empty name. -/
theorem splitOn_joined {texts : List String} (h : ∀ t ∈ texts, ',' ∉ t.toList) :
    (joined texts).toList.splitOn ',' =
      if texts = [] then [[]] else (TextSet.ofList texts).toList.map String.toList := by
  rw [toList_joined]
  split
  · rename_i hnil
    simp [hnil, TextSet.ofList, TextSet.insertAll, TextSet.empty]
  · rename_i hne
    obtain ⟨t, ht⟩ := List.exists_mem_of_ne_nil _ hne
    refine List.splitOn_intercalate ',' (fun part hpart => ?_) ?_
    · obtain ⟨t, ht, rfl⟩ := List.mem_map.mp hpart
      exact h t (mem_ofList.mp ht)
    · exact List.ne_nil_of_mem (List.mem_map_of_mem (mem_ofList.mpr ht))

/-- The names of two lists are the same, or there are none but the empty one. -/
def SameNames (names names' : List String) : Prop :=
  (∀ n, n ∈ names ↔ n ∈ names') ∨ ∀ n ∈ names ++ names', n = ""

/-- Names without commas are told apart by the text that they are joined to, but for the empty one
by itself. -/
theorem sameNames_of_joined {texts texts' : List String} (h : ∀ t ∈ texts, ',' ∉ t.toList)
    (h' : ∀ t ∈ texts', ',' ∉ t.toList) (heq : joined texts = joined texts') :
    SameNames texts texts' := by
  have hsplit := splitOn_joined h
  rw [heq, splitOn_joined h'] at hsplit
  have hempty : ∀ {texts : List String},
      [[]] = (TextSet.ofList texts).toList.map String.toList → ∀ t ∈ texts, t = "" := by
    intro texts heq t ht
    have hmem : t.toList ∈ [[]] := heq ▸ List.mem_map_of_mem (mem_ofList.mpr ht)
    exact String.toList_inj.mp (List.mem_singleton.mp hmem)
  by_cases hnil : texts = [] <;> by_cases hnil' : texts' = []
  · exact .inl fun t => by rw [hnil, hnil']
  · rw [if_pos hnil, if_neg hnil'] at hsplit
    exact .inr fun t ht => hempty hsplit.symm t (by simpa [hnil] using ht)
  · rw [if_neg hnil, if_pos hnil'] at hsplit
    exact .inr fun t ht => hempty hsplit t (by simpa [hnil'] using ht)
  · rw [if_neg hnil, if_neg hnil'] at hsplit
    have hlists := List.map_injective_iff.mpr (fun _ _ => String.toList_inj.mp) hsplit
    exact .inl fun t => by rw [← mem_ofList, ← hlists, mem_ofList]

theorem joined_injective {texts texts' : List String} (h : ∀ t ∈ texts, IsPlain t)
    (h' : ∀ t ∈ texts', IsPlain t) (heq : joined texts = joined texts') (t : String) :
    t ∈ texts ↔ t ∈ texts' := by
  rcases sameNames_of_joined (fun t ht => (h t ht).2.1) (fun t ht => (h' t ht).2.1) heq with
    hsame | hempty
  · exact hsame t
  · rw [List.forall_mem_append] at hempty
    exact ⟨fun ht => absurd (hempty.1 t ht) (h t ht).1, fun ht => absurd (hempty.2 t ht) (h' t ht).1⟩

/-- Constraints whose preferred names are plain. -/
structure Plain (cs : Constraints) : Prop where
  namespaces : ∀ n ∈ cs.preferredNamespaces, IsPlain n
  projects : ∀ p ∈ cs.preferredProjects, IsPlain p

omit [LegibleCoordinate α] in
/-- Namespaces and projects are parted at the bar, if no namespace holds one. -/
theorem joined_of_preferenceKey (h : ∀ n ∈ cs.preferredNamespaces, '|' ∉ n.toList)
    (h' : ∀ n ∈ cs'.preferredNamespaces, '|' ∉ n.toList)
    (heq : preferenceKey cs = preferenceKey cs') :
    joined cs.preferredNamespaces = joined cs'.preferredNamespaces ∧
      joined cs.preferredProjects = joined cs'.preferredProjects := by
  have hlist := congrArg String.toList heq
  simp only [preferenceKey, String.toList_append, List.append_assoc] at hlist
  obtain ⟨hn, hp⟩ := part_unique (notMem_joined h) (notMem_joined h') hlist
  exact ⟨String.toList_inj.mp hn, String.toList_inj.mp hp⟩

omit [LegibleCoordinate α] in
theorem preferenceKey_injective {cs cs' : Constraints} (h : Plain cs) (h' : Plain cs')
    (heq : preferenceKey cs = preferenceKey cs') :
    (∀ n, n ∈ cs.preferredNamespaces ↔ n ∈ cs'.preferredNamespaces) ∧
      ∀ p, p ∈ cs.preferredProjects ↔ p ∈ cs'.preferredProjects := by
  obtain ⟨hn, hp⟩ := joined_of_preferenceKey (fun n hn => (h.namespaces n hn).2.2)
    (fun n hn => (h'.namespaces n hn).2.2) heq
  exact ⟨joined_injective h.namespaces h'.namespaces hn,
    joined_injective h.projects h'.projects hp⟩

end Search

end Obsplan
