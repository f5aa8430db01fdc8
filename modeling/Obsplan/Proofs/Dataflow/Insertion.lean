import Obsplan.Proofs.Dataflow.Grafting
import Obsplan.Proofs.Dataflow.Nesting

/-!
# Plans added to texts

What a plan covers is not written, so the text of a plan that was added somewhere only shows the
texts of its roots there. Main statement: the text of the grown plan is the one from before with
these inserted below the actuator that the plan was added to.
-/

namespace Obsplan

variable {α : Type} [Coordinate α]

/-! ## Texts of actuators -/

namespace Actuator

open Dataflow

/-- The first lines of an actuator, before those of its children. -/
def heading (level : Nat) (j : Job α) : String :=
  indent level 0 ++ j.kind.name ++ " " ++ j.targetName ++ strategyText level j

mutual

/-- The text of an actuator at a level. -/
def written (level : Nat) : Actuator α → String
  | .mk j children =>
    heading level j ++ childrenText level (writtenAll (level + 1) children) ++
      computationText level j.computation

def writtenAll (level : Nat) : List (Actuator α) → List String
  | [] => []
  | a :: as => written level a :: writtenAll level as

end

theorem writtenAll_append (level : Nat) (as bs : List (Actuator α)) :
    writtenAll level (as ++ bs) = writtenAll level as ++ writtenAll level bs := by
  induction as with
  | nil => rfl
  | cons a as ih => rw [List.cons_append, writtenAll, writtenAll, ih, List.cons_append]

theorem writtenAll_eq_nil {level : Nat} {as : List (Actuator α)} :
    writtenAll level as = [] ↔ as = [] := by
  cases as <;> simp [writtenAll]

mutual

theorem actuatorText?_eq (limit : Nat) : (level : Nat) → (a : Actuator α) →
    level + levels a ≤ limit + 1 → actuatorText? limit level a = some (written level a)
  | level, .mk j children, h => by
    rw [levels] at h
    rw [actuatorText?, if_neg (by omega), actuatorTexts?_eq limit (level + 1) children (by omega)]
    rfl

theorem actuatorTexts?_eq (limit : Nat) : (level : Nat) → (as : List (Actuator α)) →
    level + levelsAll as ≤ limit + 1 → actuatorTexts? limit level as = some (writtenAll level as)
  | _, [], _ => rfl
  | level, a :: as, h => by
    rw [levelsAll] at h
    rw [actuatorTexts?, actuatorText?_eq limit level a (by omega),
      actuatorTexts?_eq limit level as (by omega)]
    rfl

end

/-! ## Between the children of an actuator -/

/-- The text of an actuator up to the end of its last child. -/
def opening (level : Nat) (j : Job α) (children : List (Actuator α)) : String :=
  heading level j ++
    if children.isEmpty then ""
    else "\n" ++ indent level 1 ++ "(\n" ++ ",\n".intercalate (writtenAll (level + 1) children)

/-- The text of an actuator from the end of its last child. -/
def closing (level : Nat) (j : Job α) (children : List (Actuator α)) : String :=
  (if children.isEmpty then "" else "\n" ++ indent level 1 ++ ")") ++
    computationText level j.computation

/-- What stands for further children behind the last one, or for the first ones. -/
def inserted (level : Nat) (children : List (Actuator α)) (texts : List String) : String :=
  if children.isEmpty then
    "\n" ++ indent level 1 ++ "(\n" ++ ",\n".intercalate texts ++ "\n" ++ indent level 1 ++ ")"
  else ",\n" ++ ",\n".intercalate texts

theorem written_eq (level : Nat) (j : Job α) (children : List (Actuator α)) :
    written level (.mk j children) = opening level j children ++ closing level j children := by
  rw [written, opening, closing, childrenText]
  cases children with
  | nil => simp [writtenAll]
  | cons a as => simp [writtenAll, String.append_assoc]

/-- More children are written behind those that are there. -/
theorem written_append (level : Nat) (j : Job α) (children : List (Actuator α))
    {roots : List (Actuator α)} (h : roots ≠ []) :
    written level (.mk j (children ++ roots)) =
      opening level j children ++ inserted level children (writtenAll (level + 1) roots) ++
        closing level j children := by
  have htexts : writtenAll (level + 1) roots ≠ [] := mt writtenAll_eq_nil.mp h
  rw [written, opening, closing, inserted, childrenText]
  cases children with
  | nil =>
    rw [List.nil_append, if_neg (by simpa using htexts)]
    simp [String.append_assoc]
  | cons a as =>
    have hchildren : writtenAll (level + 1) (a :: as) ≠ [] := by simp [writtenAll]
    rw [writtenAll_append, if_neg (by simp [htexts]),
      String.intercalate_append_of_ne_nil hchildren htexts]
    simp [String.append_assoc]

/-- What is covered is not written. -/
theorem written_uncovered (level : Nat) (j : Job α) (children : List (Actuator α)) :
    written level (.mk j.uncovered children) = written level (.mk j children) := rfl

end Actuator

/-! ## Texts around a way -/

namespace Way

open Actuator Dataflow

variable {way way' : Way α} {f : Frame α}

/-- The last actuator of a way that begins at another one. -/
def last (f : Frame α) : Way α → Frame α
  | [] => f
  | g :: way => last g way

/-- The text of the first actuator of a way up to that of the last one. -/
def ahead (level : Nat) (f : Frame α) : Way α → String
  | [] => ""
  | g :: way =>
    heading level f.job ++ "\n" ++ indent level 1 ++ "(\n" ++
      String.join ((writtenAll (level + 1) g.before).map (· ++ ",\n")) ++ ahead (level + 1) g way

/-- The text of the first actuator of a way behind that of the last one. -/
def behind (level : Nat) (f : Frame α) : Way α → String
  | [] => ""
  | g :: way =>
    behind (level + 1) g way ++ String.join ((writtenAll (level + 1) g.after).map (",\n" ++ ·)) ++
      "\n" ++ indent level 1 ++ ")" ++ computationText level f.job.computation

theorem exists_outer (f : Frame α) (way : Way α) : ∃ outer, f :: way = outer ++ [last f way] := by
  induction way generalizing f with
  | nil => exact ⟨[], rfl⟩
  | cons g way ih =>
    obtain ⟨outer, houter⟩ := ih g
    refine ⟨f :: outer, ?_⟩
    rw [last, List.cons_append, ← houter]

theorem intercalate_cons (s t : String) (ts : List String) :
    s.intercalate (t :: ts) = t ++ String.join (ts.map (s ++ ·)) := by
  induction ts generalizing t with
  | nil => simp
  | cons u ts ih =>
    rw [String.intercalate_cons_cons, ih, List.map_cons, String.join_cons, String.append_assoc,
      String.append_assoc]

/-- A text between others, each with its separator. -/
theorem intercalate_append_cons (s t : String) (before after : List String) :
    s.intercalate (before ++ t :: after) =
      String.join (before.map (· ++ s)) ++ t ++ String.join (after.map (s ++ ·)) := by
  induction before with
  | nil => simp [intercalate_cons]
  | cons u before ih =>
    rw [List.cons_append, String.intercalate_cons_of_ne_nil (by simp), ih]
    simp [String.append_assoc]

theorem written_fill (level : Nat) (f : Frame α) (way : Way α) (below : List (Actuator α)) :
    written level (.mk f.job (fill way below)) =
      ahead level f way ++ written (level + way.length) (.mk (last f way).job below) ++
        behind level f way := by
  induction way generalizing level f with
  | nil => simp [fill, ahead, behind, last]
  | cons g way ih =>
    have hlevel : level + (g :: way).length = level + 1 + way.length := by
      rw [List.length_cons]
      omega
    rw [written, fill, writtenAll_append, writtenAll, childrenText, if_neg (by simp),
      intercalate_append_cons, ih, ahead, behind, last, hlevel]
    simp only [String.append_assoc]

theorem Alike.writtenAll (h : Alike way way') (level : Nat) (below : List (Actuator α)) :
    Actuator.writtenAll level (fill way' below) = Actuator.writtenAll level (fill way below) := by
  induction h generalizing level with
  | nil => rfl
  | @cons f f' way way' hf _ ih =>
    obtain ⟨hbefore, hjob, hafter⟩ := hf
    -- a job is written as it is without what it covers
    have htext : written level (.mk f'.job (fill way' below)) =
        written level (.mk f.job (fill way below)) := by
      rw [← written_uncovered, hjob, written_uncovered, written, written, ih]
    rw [fill, fill, writtenAll_append, writtenAll_append, Actuator.writtenAll, Actuator.writtenAll,
      hbefore, hafter, htext]

end Way

/-! ## Texts of plans -/

namespace Dataflow

open Way Actuator

variable {d other sum : Dataflow α} {f : Frame α} {way : Way α} {below : List (Actuator α)}

/-- The texts of some roots, each ended by a semicolon. -/
def rootsText (roots : List (Actuator α)) : String :=
  String.join ((writtenAll 0 roots).map fun root => "\n" ++ root ++ ";")

/-- The text of a plan up to that of the last actuator of a way. -/
def start (ctx : Context α) (f : Frame α) (way : Way α) : String :=
  "dataflow " ++ nameOf ctx.displayName ++ "\n;" ++ rootsText f.before ++ "\n" ++ ahead 0 f way

/-- The text of a plan behind that of the last actuator of a way. -/
def stop (f : Frame α) (way : Way α) : String := behind 0 f way ++ ";" ++ rootsText f.after

theorem encode_eq {limit : Nat} (h : d.levels ≤ limit + 1) (ctx : Context α) :
    d.encode limit ctx =
      "dataflow " ++ nameOf ctx.displayName ++ "\n;" ++ rootsText d.actuators := by
  rw [encode, text?, actuatorTexts?_eq limit 0 d.actuators (by rwa [Nat.zero_add])]
  rfl

theorem rootsText_fill (f : Frame α) (way : Way α) (below : List (Actuator α)) :
    rootsText (fill (f :: way) below) =
      rootsText f.before ++ "\n" ++ (ahead 0 f way ++
        written way.length (.mk (last f way).job below) ++ behind 0 f way) ++ ";" ++
          rootsText f.after := by
  rw [rootsText, fill, writtenAll_append, Actuator.writtenAll, written_fill, Nat.zero_add]
  simp only [List.map_append, List.map_cons, String.join_append, String.join_cons,
    String.append_assoc, rootsText]

/-- Where a plan differs from a filled way in coverages only, its text is that around the way and of
what is at its end. -/
theorem encode_of_writtenAll {limit : Nat} (hlevels : d.levels ≤ limit + 1)
    (h : writtenAll 0 d.actuators = writtenAll 0 (fill (f :: way) below)) (ctx : Context α) :
    d.encode limit ctx =
      start ctx f way ++ written way.length (.mk (last f way).job below) ++ stop f way := by
  have hroots : rootsText d.actuators = rootsText (fill (f :: way) below) := by
    rw [rootsText, h, rootsText]
  rw [encode_eq hlevels, hroots, rootsText_fill, start, stop]
  simp only [String.append_assoc]

/-- A plan with roots that is added below an actuator puts one block of text into that of the plan
that grows: the texts of its roots, one level deeper, behind those of the actuators that were there
below it, or else in parentheses of their own before its calls. -/
theorem encode_add (hids : d.ids.Nodup) (hother : other.isEmpty = false)
    (hd : d.actuators = fill (f :: way) below) (ctx : Context α) :
    ∃ sum, d.add other (ctx.within (last f way).job.id) = .ok sum ∧
      ∀ limit, d.levels ≤ limit + 1 → sum.levels ≤ limit + 1 →
        ∃ texts, actuatorTexts? limit (way.length + 1) other.actuators = some texts ∧
          ∀ ctx' : Context α,
            d.encode limit ctx' = start ctx' f way ++
              (opening way.length (last f way).job below ++
                closing way.length (last f way).job below) ++ stop f way ∧
            sum.encode limit ctx' = start ctx' f way ++
              (opening way.length (last f way).job below ++ inserted way.length below texts ++
                closing way.length (last f way).job below) ++ stop f way := by
  have hroots : other.actuators ≠ [] := by
    intro hnil
    rw [isEmpty, hnil] at hother
    cases hother
  have hway : EndsAt (ctx.within (last f way).job.id).current (f :: way) := by
    obtain ⟨outer, houter⟩ := exists_outer f way
    have hnodup : (idsOf (fill (outer ++ [last f way]) below)).Nodup := by
      rw [← houter, ← hd]
      exact hids
    rw [houter]
    exact leadsTo_of_nodup hnodup
  refine ⟨_, add_fill hway hd other, fun limit hlevels hlevels' => ?_⟩
  -- the roots are below the way in the plan that has grown, so they do not exceed the limit either
  have hdeep : way.length + 1 + levelsAll other.actuators ≤ limit + 1 := by
    rw [Dataflow.levels, joined, levelsAll_widened, List.length_cons] at hlevels'
    omega
  have hbefore : writtenAll 0 d.actuators = writtenAll 0 (fill (f :: way) below) := by rw [hd]
  have halike : Alike (f :: way) (widened other.actuators (f :: way)) := alike_widened _ _
  have hafter := halike.writtenAll 0 (below ++ other.actuators)
  refine ⟨_, actuatorTexts?_eq limit _ other.actuators hdeep, fun ctx' => ⟨?_, ?_⟩⟩
  · rw [encode_of_writtenAll hlevels hbefore, written_eq]
  · rw [encode_of_writtenAll hlevels' hafter, written_append _ _ _ hroots]

example : ((rooted [observing 1 []]).add twoRoots (within 1)).toOption.map
      (fun sum => sum.encode 2 (within 1)) =
    some ("dataflow c\n;\nobserve t:Dune" ++
      "\n   (\n      observe t:Dune,\n      observe t:Dune\n         (\n" ++
        "            observe t:Dune\n         )\n   )" ++ ";") := by
  decide +kernel

/-- The actuators on the way to the second one of the nested plan. -/
def outermost : Frame Number := ⟨[], (observing 1 []).job, [observing 5 []]⟩

def innermost : Frame Number := ⟨[], (observing 2 []).job, [observing 4 []]⟩

theorem encode_add_nested :
    nested.ids.Nodup ∧ twoRoots.isEmpty = false ∧
      ∃ sum texts, nested.add twoRoots ((within 5).within innermost.job.id) = .ok sum ∧
        actuatorTexts? 3 2 twoRoots.actuators = some texts ∧
        sum.encode 3 (within 5) = start (within 5) outermost [innermost] ++
          (opening 1 innermost.job [observing 3 []] ++ inserted 1 [observing 3 []] texts ++
            closing 1 innermost.job [observing 3 []]) ++ stop outermost [innermost] := by
  have hids : nested.ids.Nodup := by decide +kernel
  have hway : nested.actuators = fill [outermost, innermost] [observing 3 []] := rfl
  have hother : twoRoots.isEmpty = false := by decide
  obtain ⟨sum, hsum, htexts⟩ := encode_add hids hother hway (within 5)
  have hlevels : (nested.add twoRoots ((within 5).within innermost.job.id)).toOption.map levels =
      some 4 := by
    decide +kernel
  have hgrown : sum.levels = 4 := by
    have hadd : nested.add twoRoots ((within 5).within innermost.job.id) = .ok sum := hsum
    rw [hadd] at hlevels
    exact Option.some.inj hlevels
  obtain ⟨texts, hroots, hencode⟩ := htexts 3 (by decide +kernel) (Nat.le_of_eq hgrown)
  exact ⟨hids, hother, sum, texts, hsum, hroots, (hencode (within 5)).2⟩

end Dataflow

end Obsplan
