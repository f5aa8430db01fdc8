import Obsplan.Coordinate

/-!
# Scales

A scale is a box in space and time: at most one half-open extent per dimension, kept in the order
of the dimensions. A scale without extents is scalar and has unit volume. A dimension that a scale
lacks is unconstrained when it meets another scale, so a model that declares only a time extent
applies everywhere in space. Main statements: what is cut out of a scale keeps its dimensions, and
its extents are valid.
-/

namespace Obsplan

open Coordinate

/-- The directions a scale can extend in. -/
inductive Dimension where
  | x
  | y
  | time
  deriving DecidableEq, Repr

namespace Dimension

/-- The dimensions in the order in which a scale lists them. -/
def all : List Dimension := [.x, .y, .time]

def name : Dimension → String
  | .x => "x"
  | .y => "y"
  | .time => "time"

def ofName? (s : String) : Option Dimension := all.find? fun d => d.name == s

end Dimension

variable {α : Type} [Coordinate α]

/-! ## Extents -/

/-- The half-open interval from `start` up to but excluding `stop` in one dimension. -/
structure Extent (α : Type) where
  dimension : Dimension
  start : α
  stop : α
  deriving BEq, Repr

/-- Why a scale cannot be made. -/
inductive ScaleError (α : Type) where
  /-- The bounds are not finite numbers in increasing order. -/
  | invalidExtent (dimension : Dimension) (start stop : α)
  /-- Two extents share a dimension. -/
  | duplicateDimension (dimension : Dimension)
  /-- A scale is cut into no parts, or along a dimension it lacks. -/
  | invalidSplit (dimension : Dimension) (parts : Nat)
  deriving Repr

namespace Extent

/-- Whether the bounds are finite numbers in increasing order. -/
def isValid (e : Extent α) : Bool :=
  isFinite e.start && isFinite e.stop && decide (e.start < e.stop)

/-- The extent itself when it is valid. -/
def check (e : Extent α) : Except (ScaleError α) (Extent α) :=
  if e.isValid then .ok e else .error (.invalidExtent e.dimension e.start e.stop)

def length (e : Extent α) : α := e.stop - e.start

/-- The part of `e` inside `other`, along the dimension of `e`. -/
def meet? (e other : Extent α) : Option (Extent α) :=
  let start := greater e.start other.start
  let stop := lesser e.stop other.stop
  if start < stop then some ⟨e.dimension, start, stop⟩ else none

/-- An extent in messages. -/
def text (e : Extent α) : String :=
  e.dimension.name ++ "[" ++ Coordinate.text e.start ++ ", " ++ Coordinate.text e.stop ++ ")"

/-- A part keeps the dimension. -/
theorem dimension_meet? {e other part : Extent α} (h : e.meet? other = some part) :
    part.dimension = e.dimension := by
  simp only [meet?] at h
  split at h
  · cases h; rfl
  · cases h

theorem isFinite_greater {a b : α} (ha : isFinite a = true) (hb : isFinite b = true) :
    isFinite (greater a b) = true := by
  unfold greater; split <;> assumption

theorem isFinite_lesser {a b : α} (ha : isFinite a = true) (hb : isFinite b = true) :
    isFinite (lesser a b) = true := by
  unfold lesser; split <;> assumption

theorem isValid_iff {e : Extent α} :
    e.isValid = true ↔ isFinite e.start = true ∧ isFinite e.stop = true ∧ e.start < e.stop := by
  simp [isValid, and_assoc]

/-- A part of a valid extent is valid. -/
theorem isValid_meet? {e other part : Extent α} (he : e.isValid = true)
    (ho : other.isValid = true) (h : e.meet? other = some part) : part.isValid = true := by
  obtain ⟨he₁, he₂, -⟩ := isValid_iff.mp he
  obtain ⟨ho₁, ho₂, -⟩ := isValid_iff.mp ho
  simp only [meet?] at h
  split at h
  · cases h
    exact isValid_iff.mpr ⟨isFinite_greater he₁ ho₁, isFinite_lesser he₂ ho₂, ‹_›⟩
  · cases h

end Extent

/-! ## Scales -/

/-- A box in space and time. -/
structure Scale (α : Type) [Coordinate α] where
  extents : List (Extent α)
  /-- The dimensions come in order, each at most once. -/
  ordered : (extents.map Extent.dimension).Sublist Dimension.all
  /-- All extents are valid. -/
  valid : ∀ e ∈ extents, e.isValid = true
  deriving Repr

namespace Scale

/-- Scales are equal when their extents are; bounds are compared as numbers. -/
instance : BEq (Scale α) := ⟨fun s t => s.extents == t.extents⟩

/-- The extents along one dimension. -/
def along (d : Dimension) (extents : List (Extent α)) : List (Extent α) :=
  extents.filter fun e => e.dimension == d

/-- The extents in the order of their dimensions, those of one dimension as they came. -/
def inOrder (extents : List (Extent α)) : List (Extent α) :=
  Dimension.all.flatMap fun d => along d extents

omit [Coordinate α] in
/-- Dimensions with at most one extent each are listed in order. -/
theorem ordered_flatMap_along {extents : List (Extent α)} {ds : List Dimension}
    (h : ∀ d ∈ ds, (along d extents).length ≤ 1) :
    ((ds.flatMap fun d => along d extents).map Extent.dimension).Sublist ds := by
  induction ds with
  | nil => simp
  | cons d ds ih =>
    have ih := ih fun d' hd => h d' (List.mem_cons_of_mem d hd)
    have hone := h d List.mem_cons_self
    have hdim : ∀ e ∈ along d extents, e.dimension = d := by simp [along]
    rw [List.flatMap_cons, List.map_append]
    match hl : along d extents with
    | [] => exact ih.cons d
    | [e] =>
      have he : e.dimension = d := hdim e (by simp [hl])
      simpa [he] using ih.cons_cons d
    | _ :: _ :: _ => simp [hl] at hone

/-- The scale with the given extents. Repeated dimensions are reported before bad bounds. -/
def ofExtents (extents : List (Extent α)) : Except (ScaleError α) (Scale α) :=
  match hd : Dimension.all.find? fun d => decide (1 < (along d extents).length) with
  | some d => .error (.duplicateDimension d)
  | none =>
    match hv : (inOrder extents).find? fun e => !e.isValid with
    | some e => .error (.invalidExtent e.dimension e.start e.stop)
    | none => .ok {
        extents := inOrder extents
        ordered := ordered_flatMap_along (by simpa using hd)
        valid := by simpa using hv }

def scalar : Scale α := ⟨[], List.nil_sublist _, by simp⟩

def extent? (s : Scale α) (d : Dimension) : Option (Extent α) :=
  s.extents.find? fun e => e.dimension == d

def isScalar (s : Scale α) : Bool := s.extents.isEmpty

/-- The scale with the extent along one dimension added or replaced. -/
def withExtent (s : Scale α) (e : Extent α) : Except (ScaleError α) (Scale α) :=
  ofExtents (s.extents.filter (fun old => old.dimension != e.dimension) ++ [e])

/-- The product of the lengths of the extents. -/
def volume (s : Scale α) : α := s.extents.foldl (fun v e => v * e.length) one

/-- Extents that can take the place of those of a scale: the same dimensions, and all valid. -/
def Fits (s : Scale α) (extents : List (Extent α)) : Prop :=
  extents.map Extent.dimension = s.extents.map Extent.dimension ∧ ∀ e ∈ extents, e.isValid = true

/-- The scale with other bounds. -/
def refit (s : Scale α) (extents : List (Extent α)) (h : s.Fits extents) : Scale α where
  extents
  ordered := h.1 ▸ s.ordered
  valid := h.2

/-- The part of an extent inside a scale: all of it when the scale lacks its dimension. -/
def narrow? (s : Scale α) (e : Extent α) : Option (Extent α) :=
  match s.extent? e.dimension with
  | some o => e.meet? o
  | none => some e

theorem extent?_mem {s : Scale α} {d : Dimension} {e : Extent α} (h : s.extent? d = some e) :
    e ∈ s.extents := List.mem_of_find?_eq_some h

theorem narrow?_fits {s : Scale α} {e part : Extent α} (h : s.narrow? e = some part) :
    part.dimension = e.dimension ∧ (e.isValid = true → part.isValid = true) := by
  simp only [narrow?] at h
  split at h
  · rename_i o ho
    exact ⟨Extent.dimension_meet? h, fun he =>
      Extent.isValid_meet? he (s.valid o (extent?_mem ho)) h⟩
  · cases h; exact ⟨rfl, id⟩

theorem mapM_narrow?_fits {s : Scale α} {extents parts : List (Extent α)}
    (h : extents.mapM s.narrow? = some parts) :
    parts.map Extent.dimension = extents.map Extent.dimension ∧
      ((∀ e ∈ extents, e.isValid = true) → ∀ e ∈ parts, e.isValid = true) := by
  induction extents generalizing parts with
  | nil => cases h; simp
  | cons e es ih =>
    simp only [List.mapM_cons, Option.bind_eq_bind, Option.bind_eq_some_iff, Option.pure_def,
      Option.some.injEq] at h
    obtain ⟨part, hpart, rest, hrest, rfl⟩ := h
    obtain ⟨hd, hv⟩ := narrow?_fits hpart
    obtain ⟨hds, hvs⟩ := ih hrest
    refine ⟨by simp [hd, hds], fun hes => ?_⟩
    simp only [List.forall_mem_cons] at hes ⊢
    exact ⟨hv hes.1, hvs hes.2⟩

/-- The part of `s` inside `other`, over the dimensions of `s`. -/
def intersect? (s other : Scale α) : Option (Scale α) :=
  match h : s.extents.mapM other.narrow? with
  | none => none
  | some parts => some (s.refit parts ⟨(mapM_narrow?_fits h).1, (mapM_narrow?_fits h).2 s.valid⟩)

theorem intersect?_fits {s other part : Scale α} (h : s.intersect? other = some part) :
    s.Fits part.extents := by
  simp only [intersect?] at h
  split at h
  · cases h
  · cases h; exact ⟨(mapM_narrow?_fits ‹_›).1, (mapM_narrow?_fits ‹_›).2 s.valid⟩

/-- The pieces of a box around a part cut out of it. `done` holds the extents already narrowed to
the part, the list the remaining ones, each with its narrowed form: along each dimension in turn
what lies before and what lies after the part is split off. -/
def carve (done : List (Extent α)) : List (Extent α × Extent α) → List (List (Extent α))
  | [] => []
  | (own, cut) :: rest =>
    let after := rest.map Prod.fst
    let before :=
      if own.start < cut.start then [done ++ { own with stop := cut.start } :: after] else []
    let behind :=
      if cut.stop < own.stop then [done ++ { own with start := cut.stop } :: after] else []
    before ++ behind ++ carve (done ++ [cut]) rest

/-- The pieces keep the dimensions of the box, and their extents are valid. -/
theorem carve_fits {done : List (Extent α)} {pairs : List (Extent α × Extent α)}
    (hdone : ∀ e ∈ done, e.isValid = true)
    (hpairs : ∀ p ∈ pairs, p.1.isValid = true ∧ p.2.isValid = true ∧
      p.2.dimension = p.1.dimension) :
    ∀ piece ∈ carve done pairs,
      piece.map Extent.dimension =
          done.map Extent.dimension ++ pairs.map (fun p => p.1.dimension) ∧
        ∀ e ∈ piece, e.isValid = true := by
  induction pairs generalizing done with
  | nil => simp [carve]
  | cons pair rest ih =>
    obtain ⟨own, cut⟩ := pair
    obtain ⟨⟨hown, hcut, hdim⟩, hrest⟩ := List.forall_mem_cons.mp hpairs
    simp only at hown hcut hdim
    obtain ⟨hown₁, hown₂, -⟩ := Extent.isValid_iff.mp hown
    obtain ⟨hcut₁, hcut₂, -⟩ := Extent.isValid_iff.mp hcut
    -- what is split off differs from the box in one extent
    have side : ∀ e : Extent α, e.dimension = own.dimension → e.isValid = true →
        (done ++ e :: rest.map Prod.fst).map Extent.dimension =
            done.map Extent.dimension ++ ((own, cut) :: rest).map (fun p => p.1.dimension) ∧
          ∀ e' ∈ done ++ e :: rest.map Prod.fst, e'.isValid = true := by
      intro e hd hv
      refine ⟨by simp [hd], ?_⟩
      simp only [List.forall_mem_append, List.forall_mem_cons, List.forall_mem_map]
      exact ⟨hdone, hv, fun p hp => (hrest p hp).1⟩
    intro piece hpiece
    simp only [carve, List.mem_append] at hpiece
    rcases hpiece with (hpiece | hpiece) | hpiece
    · split at hpiece
      · rw [List.mem_singleton.mp hpiece]
        exact side _ rfl (Extent.isValid_iff.mpr ⟨hown₁, hcut₁, ‹_›⟩)
      · cases hpiece
    · split at hpiece
      · rw [List.mem_singleton.mp hpiece]
        exact side _ rfl (Extent.isValid_iff.mpr ⟨hcut₂, hown₂, ‹_›⟩)
      · cases hpiece
    · have hdone' : ∀ e ∈ done ++ [cut], e.isValid = true := by
        simp only [List.forall_mem_append, List.forall_mem_singleton]
        exact ⟨hdone, hcut⟩
      obtain ⟨hds, hvs⟩ := ih hdone' hrest piece hpiece
      exact ⟨by simp [hds, hdim], hvs⟩

/-- The pieces of a scale around its part in another one. -/
theorem carve_intersect?_fits {s other part : Scale α} (h : s.intersect? other = some part) :
    ∀ piece ∈ carve [] (s.extents.zip part.extents), s.Fits piece := by
  have hdims := (intersect?_fits h).1
  have hlen : part.extents.length = s.extents.length := by simpa using congrArg List.length hdims
  have hpairs : ∀ p ∈ s.extents.zip part.extents, p.1.isValid = true ∧ p.2.isValid = true ∧
      p.2.dimension = p.1.dimension := by
    intro p hp
    obtain ⟨i, hi, rfl⟩ := List.getElem_of_mem hp
    simp only [List.length_zip, hlen, Nat.min_self] at hi
    simp only [List.getElem_zip]
    refine ⟨s.valid _ (List.getElem_mem _), part.valid _ (List.getElem_mem _), ?_⟩
    simpa [List.getElem?_eq_getElem, hi, hlen] using congrArg (·[i]?) hdims
  intro piece hpiece
  obtain ⟨hds, hvs⟩ := carve_fits (by simp) hpairs piece hpiece
  refine ⟨?_, hvs⟩
  have hfst : (s.extents.zip part.extents).map Prod.fst = s.extents :=
    List.map_fst_zip (by omega)
  calc piece.map Extent.dimension
      = ((s.extents.zip part.extents).map Prod.fst).map Extent.dimension := by
        rw [List.map_map]; exact hds
    _ = s.extents.map Extent.dimension := by rw [hfst]

/-- The part of `s` outside `other`, as disjoint boxes. -/
def subtract (s other : Scale α) : List (Scale α) :=
  match h : s.intersect? other with
  | none => [s]
  | some part => (carve [] (s.extents.zip part.extents)).pmap s.refit (carve_intersect?_fits h)

/-- Whether `other` lies inside `s`. -/
def contains (s other : Scale α) : Bool :=
  s.extents.all fun e =>
    match other.extent? e.dimension with
    | some o => decide (e.start ≤ o.start) && decide (o.stop ≤ e.stop)
    | none => false

/-- The last `remaining` of `parts` equal slices of a scale along one of its extents. -/
def slices (s : Scale α) (e : Extent α) (parts : Nat) :
    Nat → Except (ScaleError α) (List (Scale α))
  | 0 => .ok []
  | remaining + 1 => do
    let step := e.length / (parts : α)
    let i := parts - (remaining + 1)
    let start := e.start + step * (i : α)
    let stop := if remaining = 0 then e.stop else e.start + step * ((i + 1 : Nat) : α)
    let slice ← s.withExtent (← Extent.check ⟨e.dimension, start, stop⟩)
    return slice :: (← s.slices e parts remaining)

/-- A scale cut into equal slices along one dimension. -/
def split (s : Scale α) (d : Dimension) (parts : Nat) : Except (ScaleError α) (List (Scale α)) :=
  if parts = 0 then .error (.invalidSplit d parts)
  else match s.extent? d with
    | none => .error (.invalidSplit d parts)
    | some e => s.slices e parts parts

/-- A scale in messages and search keys. -/
def text (s : Scale α) : String :=
  if s.isScalar then "scalar" else " ".intercalate (s.extents.map Extent.text)

def space (x₀ x₁ y₀ y₁ : α) : Except (ScaleError α) (Scale α) := do
  let x ← Extent.check ⟨.x, x₀, x₁⟩
  let y ← Extent.check ⟨.y, y₀, y₁⟩
  ofExtents [x, y]

def interval (t₀ t₁ : α) : Except (ScaleError α) (Scale α) := do
  let t ← Extent.check ⟨.time, t₀, t₁⟩
  ofExtents [t]

end Scale

namespace ScaleError

def message : ScaleError α → String
  | .invalidExtent d start stop =>
    "invalid " ++ d.name ++ " extent [" ++ Coordinate.text start ++ ", " ++
      Coordinate.text stop ++ ")"
  | .duplicateDimension d => "dimension " ++ d.name ++ " appears more than once in a scale"
  | .invalidSplit d parts => s!"cannot split {d.name} into {parts} parts"

end ScaleError

end Obsplan
