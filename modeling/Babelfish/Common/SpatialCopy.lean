import Mathlib.Tactic.Ring
import Babelfish.Common.Spatial

/-!
# What the conversion to the form of PostGIS writes

The result is filled from its front.  Each function that writes into it is described by the bytes
that it adds: the coordinates of a point from the three places of the input (`columnPoint`), the
points of a line or a ring one after the other (`columnPoints`), the rings of a polygon
(`ringBytes`) and the parts of a geometry of several parts (`childBytes`).  The input must have all
its coordinates (`Columns`), and the offsets of the figures must grow (`Figures`).

* `copyCoordinatesWithDimensions_writes`, `handleLinestringCoordinates_writes`: a line.
* `handlePolygonCoordinates_writes`: a polygon.
* `handleMultiToPostgis_ends`: a geometry of several parts.
-/

namespace Babelfish.Common.Spatial

open Lib List

variable {i idx k n start : Nat}

theorem u32_eq (h : n < 2 ^ 32) : u32 n = n :=
  Nat.mod_eq_of_lt h

theorem sub32_eq {a b : Nat} (hb : b ≤ a) (ha : a < 2 ^ 32) : sub32 a b = a - b := by
  unfold sub32
  rw [show a + 2 ^ 32 - b = a - b + 2 ^ 32 by omega, Nat.add_mod_right]
  exact Nat.mod_eq_of_lt (by omega)

theorem ofInt32_natCast (h : n < 2 ^ 32) : ofInt32 (n : Int) = n := by
  unfold ofInt32
  omega

theorem stride_cases (hasZ hasM : Bool) :
    stride hasZ hasM = 16 + (if hasZ then 8 else 0) + (if hasM then 8 else 0) := rfl

theorem stride_bounds (hasZ hasM : Bool) : 16 ≤ stride hasZ hasM ∧ stride hasZ hasM ≤ 32 := by
  cases hasZ <;> cases hasM <;> decide

theorem mul_stride (n : Nat) (hasZ hasM : Bool) : n * 16 ≤ n * stride hasZ hasM :=
  Nat.mul_le_mul_left n (stride_bounds hasZ hasM).1

/-! ### Points -/

variable (input : List UInt8) {present : Bool}

def pointBytes (xy z m : Nat) (hasZ hasM : Bool) : List UInt8 :=
  slice input xy (xy + 16) ++ (if hasZ then slice input z (z + 8) else [])
    ++ (if hasM then slice input m (m + 8) else [])

theorem length_sliceIf {input : List UInt8} {src : Nat}
    (h : present = true → src + 8 ≤ input.length) :
    (if present = true then slice input src (src + 8) else []).length =
      if present then 8 else 0 := by
  cases present with
  | false => rfl
  | true => exact length_slice_add (h rfl)

section
variable {E : MemFault String → Prop} {size pos : Nat} {input : List UInt8} {hasZ hasM : Bool}

theorem length_pointBytes {xy z m : Nat} (hxy : xy + 16 ≤ input.length)
    (hz : hasZ = true → z + 8 ≤ input.length) (hm : hasM = true → m + 8 ≤ input.length) :
    (pointBytes input xy z m hasZ hasM).length = stride hasZ hasM := by
  rw [pointBytes, length_append, length_append, length_slice_add hxy, length_sliceIf hz,
    length_sliceIf hm, stride_cases]

theorem copyIf_writes {src dst : Nat} (hdst : dst = pos)
    (hsrc : present = true → src + 8 ≤ input.length) :
    Writes E size pos (copyIf present input src dst)
      (if present then slice input src (src + 8) else []) id := by
  refine .ite (fun h => ?_) fun h => if_neg (by simp [h])
  rw [if_pos h]
  exact .after (readAt_eq (hsrc h)) (.writeAt hdst)

theorem copyPoint_writes {xy z m dst : Nat} (hdst : dst = pos) (hxy : xy + 16 ≤ input.length)
    (hz : hasZ = true → z + 8 ≤ input.length) (hm : hasM = true → m + 8 ≤ input.length) :
    Writes E size pos (copyPoint input xy z m hasZ hasM dst)
      (pointBytes input xy z m hasZ hasM) id := by
  have hlen := length_slice_add hxy
  rw [pointBytes, append_assoc]
  refine .after (readAt_eq hxy) ((Writes.writeAt hdst).seq
    ((copyIf_writes ?_ hz).seq (copyIf_writes ?_ hm)))
  · rw [hlen, hdst]
  · rw [hlen, hdst, length_sliceIf hz]

end

/-- All coordinates of `total` points are inside the input, from `src` on. -/
structure Columns (input : List UInt8) (src total : Nat) (hasZ hasM : Bool) : Prop where
  inside : src + total * stride hasZ hasM ≤ input.length
  small : input.length ≤ 2 ^ 30

def columnPoint (src total : Nat) (hasZ hasM : Bool) (idx : Nat) :
    List UInt8 :=
  pointBytes input (src + idx * 16) (src + total * 16 + idx * 8)
    (src + total * 16 + (if hasZ then total * 8 else 0) + idx * 8) hasZ hasM

def columnPoints (src total : Nat) (hasZ hasM : Bool) (start n : Nat) :
    List UInt8 :=
  (List.range n).flatMap fun i => columnPoint input src total hasZ hasM (start + i)

theorem columnPoints_succ (src total : Nat) (hasZ hasM : Bool) (start n : Nat) :
    columnPoints input src total hasZ hasM start (n + 1) =
      columnPoints input src total hasZ hasM start n
        ++ columnPoint input src total hasZ hasM (start + n) := by
  unfold columnPoints
  rw [range_succ, flatMap_append, flatMap_singleton]

namespace Columns

variable {input : List UInt8} {src total : Nat} {hasZ hasM : Bool}

section

variable (h : Columns input src total hasZ hasM)
include h

theorem places (hidx : idx < total) :
    src + idx * 16 + 16 ≤ input.length ∧
      (hasZ = true → src + total * 16 + idx * 8 + 8 ≤ input.length) ∧
      (hasM = true →
        src + total * 16 + (if hasZ then total * 8 else 0) + idx * 8 + 8 ≤ input.length) := by
  have hin := h.inside
  cases hasZ <;> cases hasM <;>
    simp only [stride, if_true, Bool.false_eq_true, if_false, false_implies, forall_const,
      and_true, true_and] at hin ⊢ <;>
    omega

theorem no_wrap :
    total * 16 + total * 8 ≤ 2 ^ 31 ∧ total * stride hasZ hasM ≤ 2 ^ 30 ∧ total ≤ 2 ^ 26 := by
  have hin := h.inside
  have hsmall := h.small
  have hmul := mul_stride total hasZ hasM
  omega

theorem take (hn : n ≤ total) : Columns input src n hasZ hasM :=
  ⟨(Nat.add_le_add_left (Nat.mul_le_mul_right _ hn) _).trans h.inside, h.small⟩

theorem length_columnPoint (hidx : idx < total) :
    (columnPoint input src total hasZ hasM idx).length = stride hasZ hasM :=
  have hp := h.places hidx
  length_pointBytes hp.1 hp.2.1 hp.2.2

theorem length_columnPoints (hn : start + n ≤ total) :
    (columnPoints input src total hasZ hasM start n).length = n * stride hasZ hasM := by
  induction n with
  | zero => simp [columnPoints]
  | succ n ih =>
    rw [columnPoints_succ, length_append, ih (by omega),
      h.length_columnPoint (show start + n < total by omega)]
    ring

end

end Columns

/-! ### Lines and rings -/

section
variable {E : MemFault String → Prop} {size pos dst : Nat} {input : List UInt8}
  {src total : Nat} {hasZ hasM : Bool}

section

variable (h : Columns input src total hasZ hasM)
include h

theorem copyPoint_column (hidx : idx < total) (hdst : dst = pos) :
    Writes E size pos (copyPoint input (src + idx * 16) (src + total * 16 + idx * 8)
        (src + total * 16 + (if hasZ then total * 8 else 0) + idx * 8) hasZ hasM dst)
      (columnPoint input src total hasZ hasM idx) id := by
  have hp := h.places hidx
  exact copyPoint_writes hdst hp.1 hp.2.1 hp.2.2

theorem copyCoordinatesWithDimensions_writes (hdst : dst = pos) :
    Writes E size pos (copyCoordinatesWithDimensions input src dst total hasZ hasM)
      (columnPoints input src total hasZ hasM 0 total) id := by
  have hw := h.no_wrap
  refine .forCount (r := fun _ => id) fun i hi => ?_
  have hmul : i * stride hasZ hasM ≤ total * stride hasZ hasM :=
    Nat.mul_le_mul_right _ (le_of_lt hi)
  have hlen := h.length_columnPoints (show 0 + i ≤ total by omega)
  rw [columnPoints] at hlen
  rw [hlen, zero_add]
  simp (disch := omega) only [u32_eq]
  exact copyPoint_column h hi (by rw [hdst])

/-- The points of a ring or of a part: each step goes on behind the point before, with the offset
in the result in the state. -/
theorem copyPoints_column {points off : Nat}
    {body : Nat → Nat × List UInt8 → Checked (Nat × List UInt8)} (hpoints : start + points ≤ total)
    (hdst : dst + off = pos) (hoff : off ≤ 9) (hbody : ∀ i o, start + i < total → o ≤ 2 ^ 31 →
      Writes E size (dst + o) (fun buf => body i (o, buf))
        (columnPoint input src total hasZ hasM (start + i))
        fun buf => (o + stride hasZ hasM, buf)) :
    Writes E size pos (fun buf => forRange body 0 points (off, buf))
      (columnPoints input src total hasZ hasM start points)
      fun buf => (off + stride hasZ hasM * points, buf) := by
  have hw := h.no_wrap
  refine .forCount (r := fun i buf => (off + stride hasZ hasM * i, buf)) fun i hi => ?_
  have hmul : i * stride hasZ hasM ≤ total * stride hasZ hasM :=
    Nat.mul_le_mul_right _ (by omega)
  have hlen := h.length_columnPoints (show start + i ≤ total by omega)
  rw [columnPoints] at hlen
  rw [hlen, ← hdst, add_assoc, mul_comm i]
  have hstep := hbody i (off + stride hasZ hasM * i) (by omega) (by rw [mul_comm]; omega)
  rwa [add_assoc] at hstep

theorem copyPolygonRingCoordinates_writes {points : Nat} (hpoints : start + points ≤ total)
    (hdst : dst = pos) :
    Writes E size pos (copyPolygonRingCoordinates input src dst total start points hasZ hasM)
      (columnPoints input src total hasZ hasM start points) id := by
  have hw := h.no_wrap
  refine (copyPoints_column h hpoints (show dst + 0 = pos from hdst) (Nat.zero_le 9)
    fun i o hi ho => ?_).map fun _ => rfl
  have hst := stride_bounds hasZ hasM
  have hz : (if hasZ = true then total * 8 else 0) ≤ total * 8 := by
    split <;> omega
  unfold copyRingPoint
  simp (disch := omega) only [u32_eq]
  rw [← add_assoc src _ ((start + i) * 8), ← add_assoc src (total * 16)]
  exact (copyPoint_column h hi rfl).map fun _ => rfl

/-! ### Parts -/

theorem writeInterleavedPoint_writes (hidx : idx < total) (hdst : dst = pos) :
    Writes E size pos (writeInterleavedPoint input src total idx hasZ hasM dst)
      (columnPoint input src total hasZ hasM idx) fun buf => (stride hasZ hasM, buf) := by
  have hw := h.no_wrap
  have hz : (if hasZ = true then total * 8 else 0) ≤ total * 8 := by
    split <;> omega
  unfold writeInterleavedPoint
  simp (disch := omega) only [u32_eq]
  rw [← add_assoc src (total * 16)]
  exact (copyPoint_column h hidx hdst).map fun _ => rfl

end

def pointChild (input : List UInt8) (src total : Nat) (hasZ hasM : Bool) (idx : Nat) :
    List UInt8 :=
  [0x01] ++ leBytes 4 (getWkbType 1 hasZ hasM) ++ columnPoint input src total hasZ hasM idx

def lineChild (input : List UInt8) (src total : Nat) (hasZ hasM : Bool) (start n : Nat) :
    List UInt8 :=
  [0x01] ++ leBytes 4 (getWkbType 2 hasZ hasM) ++ leBytes 4 n
    ++ columnPoints input src total hasZ hasM start n

theorem writeWkbPointChild_writes (h : Columns input src total hasZ hasM) (hidx : idx < total) :
    Writes E size pos (writeWkbPointChild input src total idx hasZ hasM pos)
      (pointChild input src total hasZ hasM idx) fun buf => (5 + stride hasZ hasM, buf) := by
  have hst := stride_bounds hasZ hasM
  refine (Writes.writeAt rfl).seq ((Writes.writeAt rfl).seq
    ((writeInterleavedPoint_writes h hidx ?_).map fun buf => ?_))
  · rw [length_leBytes]
    rfl
  · dsimp only
    rw [u32_eq (by omega)]
    rfl

theorem writeWkbLinestringChild_writes (h : Columns input src total hasZ hasM)
    (hn : start + n ≤ total) :
    Writes E size pos (writeWkbLinestringChild input src total start n hasZ hasM pos)
      (lineChild input src total hasZ hasM start n)
      fun buf => (9 + stride hasZ hasM * n, buf) := by
  have hst := stride_bounds hasZ hasM
  have hw := h.no_wrap
  refine (Writes.writeAt rfl).seq ((Writes.writeAt rfl).seq ((Writes.writeAt ?_).seq
    (copyPoints_column h hn (show pos + 9 = _ from ?_) le_rfl fun i o hi ho => ?_)))
  · rw [length_leBytes]
    rfl
  · rw [length_leBytes, length_leBytes]
    rfl
  · unfold writeChildPoint
    rw [u32_eq (n := start + i) (by omega)]
    dsimp only
    refine (writeInterleavedPoint_writes h hi rfl).map fun buf => ?_
    rw [u32_eq (by omega)]
    rfl

end

/-! ### Polygons -/

variable (g : GeometryData)

/-- The first point of a figure; the last figure ends with the last point. -/
def GeometryData.figureStart (total i : Nat) : Nat :=
  match g.figures[i]? with
  | some figure => figure.pointOffset
  | none => total

structure Figures (g : GeometryData) (total : Nat) : Prop where
  length : g.figures.length = g.nfigures
  pos : 1 ≤ g.nfigures
  first : g.figureStart total 0 = 0
  grows : ∀ i < g.nfigures, g.figureStart total i < g.figureStart total (i + 1)

namespace Figures

variable {g : GeometryData} {total : Nat}

section

variable (h : Figures g total)
include h

theorem last : g.figureStart total g.nfigures = total := by
  have hnone : g.figures[g.nfigures]? = none := getElem?_eq_none (by rw [h.length])
  rw [GeometryData.figureStart, hnone]

theorem start_le (hi : i ≤ g.nfigures) : g.figureStart total i ≤ total := by
  have hstep : ∀ k, i + k ≤ g.nfigures → g.figureStart total i ≤ g.figureStart total (i + k) := by
    intro k
    induction k with
    | zero => intro _; exact le_rfl
    | succ k ih =>
      intro hk
      exact (ih (by omega)).trans (le_of_lt (h.grows (i + k) (by omega)))
  have hle := hstep (g.nfigures - i) (by omega)
  rwa [show i + (g.nfigures - i) = g.nfigures by omega, h.last] at hle

theorem elemAt_eq (hi : i < g.nfigures) :
    ∃ figure, (elemAt g.figures i : Checked Figure) = .ok figure ∧
      figure.pointOffset = g.figureStart total i := by
  have hlt : i < g.figures.length := by rw [h.length]; exact hi
  refine ⟨g.figures[i], Lib.elemAt_eq hlt, ?_⟩
  rw [GeometryData.figureStart, getElem?_eq_getElem hlt]

theorem ringPoints_eq (htotal : total < 2 ^ 32) (hi : i < g.nfigures) :
    ringPoints g total i = .ok (g.figureStart total (i + 1) - g.figureStart total i) := by
  obtain ⟨figure, hfigure, hstart⟩ := h.elemAt_eq hi
  have hgrows := h.grows i hi
  rw [ringPoints, hfigure, ok_bind, hstart]
  by_cases hlast : i < g.nfigures - 1
  · obtain ⟨next, hnext, hnextStart⟩ := h.elemAt_eq (show i + 1 < g.nfigures by omega)
    have hle := h.start_le (show i + 1 ≤ g.nfigures by omega)
    rw [if_pos hlast, hnext, ok_bind, hnextStart, sub32_eq (by omega) (by omega)]
    rfl
  · rw [if_neg hlast, show i + 1 = g.nfigures by omega, h.last,
      sub32_eq (h.start_le (by omega)) htotal]
    rfl

end

end Figures

def ringBytes (total i : Nat) : List UInt8 :=
  let points := g.figureStart total (i + 1) - g.figureStart total i
  leBytes 4 points
    ++ columnPoints g.inputData g.source total g.hasZ g.hasM (g.figureStart total i) points

def ringsBytes (total k : Nat) : List UInt8 :=
  (List.range k).flatMap (ringBytes g total)

section
variable {E : MemFault String → Prop} {size : Nat} {g : GeometryData} {total : Nat}

section

variable (hcol : Columns g.inputData g.source total g.hasZ g.hasM)

include hcol

theorem length_ringsBytes (hfig : Figures g total) (hk : k ≤ g.nfigures) :
    (ringsBytes g total k).length = 4 * k + g.figureStart total k * stride g.hasZ g.hasM := by
  induction k with
  | zero => simp [ringsBytes, hfig.first]
  | succ k ih =>
    have hgrows := hfig.grows k (by omega)
    have hle := hfig.start_le hk
    have hmul : g.figureStart total k * stride g.hasZ g.hasM ≤
        g.figureStart total (k + 1) * stride g.hasZ g.hasM :=
      Nat.mul_le_mul_right _ (le_of_lt hgrows)
    unfold ringsBytes at ih ⊢
    rw [range_succ, flatMap_append, flatMap_singleton, length_append, ih (by omega), ringBytes,
      length_append, length_leBytes, hcol.length_columnPoints (by omega), Nat.sub_mul]
    omega

theorem writeRing_writes (hfig : Figures g total) (hsmall : g.nfigures ≤ 2 ^ 26)
    (hi : i < g.nfigures) :
    Writes E size (13 + (ringsBytes g total i).length)
      (fun buf => writeRing g total i ((ringsBytes g total i).length, buf)) (ringBytes g total i)
      fun buf => ((ringsBytes g total (i + 1)).length, buf) := by
  have hw := hcol.no_wrap
  have hgrows := hfig.grows i hi
  have hle := hfig.start_le (show i + 1 ≤ g.nfigures by omega)
  have hlen := length_ringsBytes hcol hfig (le_of_lt hi)
  have hnext := length_ringsBytes hcol hfig (show i + 1 ≤ g.nfigures from hi)
  have hall : g.figureStart total (i + 1) * stride g.hasZ g.hasM ≤
      total * stride g.hasZ g.hasM := Nat.mul_le_mul_right _ hle
  have hring : g.figureStart total i * stride g.hasZ g.hasM +
      (g.figureStart total (i + 1) - g.figureStart total i) * stride g.hasZ g.hasM =
      g.figureStart total (i + 1) * stride g.hasZ g.hasM := by
    rw [← add_mul]
    congr 1
    omega
  obtain ⟨figure, hfigure, hstart⟩ := hfig.elemAt_eq hi
  refine .after hfigure (.after (hfig.ringPoints_eq (by omega) hi) ?_)
  dsimp only
  rw [u32_eq (n := (ringsBytes g total i).length + 4) (by omega), hstart]
  refine (Writes.writeAt rfl).seq ?_
  rw [length_leBytes]
  refine (copyPolygonRingCoordinates_writes hcol (by omega) (by omega)).map fun buf => ?_
  rw [u32_eq (by omega), hnext]
  exact congrArg (fun n => Except.ok (n, buf)) (by omega)

/-- **The rings of a polygon** are written one after the other. -/
theorem handlePolygonCoordinates_writes (hnp : g.hasNpointsData = true)
    (htotal : ofInt32 g.npoints = total) (hfig : Figures g total) (hsmall : g.nfigures ≤ 2 ^ 26) :
    Writes E size 9 (handlePolygonCoordinates g)
      (leBytes 4 g.nfigures ++ ringsBytes g total g.nfigures) id := by
  unfold handlePolygonCoordinates
  simp only [hnp, if_true, htotal]
  refine (Writes.writeAt rfl).seq (Writes.map (Writes.forCount
    (r := fun i buf => ((ringsBytes g total i).length, buf)) fun i hi => ?_) fun _ => rfl)
  exact writeRing_writes hcol hfig hsmall hi

/-- **The points of a line** are written one after the other. -/
theorem handleLinestringCoordinates_writes
    (htotal : (if g.hasNpointsData then ofInt32 g.npoints else 2) = total) :
    Writes E size 9 (handleLinestringCoordinates g)
      (leBytes 4 total ++ columnPoints g.inputData g.source total g.hasZ g.hasM 0 total) id := by
  unfold handleLinestringCoordinates
  simp only [htotal]
  exact (Writes.writeAt rfl).seq
    (copyCoordinatesWithDimensions_writes hcol (by rw [length_leBytes]))

end

theorem handlePointCoordinates_writes (hcol : Columns g.inputData g.source 1 g.hasZ g.hasM) :
    Writes E size 9 (handlePointCoordinates g)
      (columnPoint g.inputData g.source 1 g.hasZ g.hasM 0) id := by
  unfold handlePointCoordinates
  rw [← add_assoc]
  exact copyPoint_column hcol Nat.one_pos rfl

end

/-! ### Geometries of several parts -/

/-- What `get_child_info` finds for part `i`. -/
def childOf (i : Nat) : Nat × Nat :=
  match getChildInfo g (i + 1) with
  | .ok child => child
  | .error _ => (0, 0)

def childSize (i : Nat) : Nat :=
  if g.geomName = 4 then 5 + stride g.hasZ g.hasM
  else 9 + (childOf g i).2 * stride g.hasZ g.hasM

def childBytes (total i : Nat) : List UInt8 :=
  if g.geomName = 4 then pointChild g.inputData 10 total g.hasZ g.hasM (childOf g i).1
  else lineChild g.inputData 10 total g.hasZ g.hasM (childOf g i).1 (childOf g i).2

/-- A part is found, and its points are there. -/
structure ChildOk (g : GeometryData) (total i : Nat) : Prop where
  found : getChildInfo g (i + 1) = .ok (childOf g i)
  start : (childOf g i).1 < total
  points : g.geomName = 5 → (childOf g i).1 + (childOf g i).2 ≤ total

def childrenBytes (total k : Nat) : List UInt8 :=
  (List.range k).flatMap (childBytes g total)

def childrenSize (g : GeometryData) : Nat → Nat
  | 0 => 0
  | k + 1 => childrenSize g k + childSize g k

theorem childrenSize_mono {j : Nat} (h : j ≤ k) : childrenSize g j ≤ childrenSize g k := by
  induction k with
  | zero => rw [Nat.le_zero.mp h]
  | succ k ih =>
    rcases Nat.eq_or_lt_of_le h with rfl | h
    · exact le_rfl
    · exact (ih (by omega)).trans (Nat.le_add_right _ _)

section
variable {E : MemFault String → Prop} {size : Nat} {g : GeometryData} {total : Nat} {type : UInt8}
  {junk : Nat → UInt8}

section

variable (hcol : Columns g.inputData 10 total g.hasZ g.hasM)
  (hname : g.geomName = 4 ∨ g.geomName = 5)

include hcol hname

theorem length_childBytes (hok : ChildOk g total i) :
    (childBytes g total i).length = childSize g i := by
  unfold childBytes childSize
  rcases hname with hname | hname
  · rw [if_pos hname, if_pos hname, pointChild, length_append, length_append,
      length_leBytes, hcol.length_columnPoint hok.start]
    rfl
  · rw [if_neg (by omega), if_neg (by omega), lineChild, length_append, length_append,
      length_append, length_leBytes, length_leBytes, hcol.length_columnPoints (hok.points hname)]
    rfl

theorem length_childrenBytes (hok : ∀ i < k, ChildOk g total i) :
    (childrenBytes g total k).length = childrenSize g k := by
  induction k with
  | zero => rfl
  | succ k ih =>
    unfold childrenBytes at ih ⊢
    rw [range_succ, flatMap_append, flatMap_singleton, length_append,
      ih fun i hi => hok i (by omega), length_childBytes hcol hname (hok k (by omega))]
    rfl

theorem writeChild_writes (htotal : ofInt32 g.npoints = total) (hok : ChildOk g total i)
    (hsize : 13 + childrenSize g (i + 1) < 2 ^ 32) : Writes E size (13 + childrenSize g i)
      (fun buf => writeChild g i (13 + childrenSize g i, buf)) (childBytes g total i)
      fun buf => (13 + childrenSize g (i + 1), buf) := by
  have hsum : childrenSize g (i + 1) = childrenSize g i + childSize g i := rfl
  have hchild : Writes E size (13 + childrenSize g i) (writeChildWkb g.inputData 10 total
      (childOf g i).1 (childOf g i).2 g.geomName g.hasZ g.hasM (13 + childrenSize g i))
      (childBytes g total i) fun buf => (childSize g i, buf) := by
    unfold childBytes childSize
    rcases hname with hname | hname
    · rw [if_pos hname, if_pos hname, hname]
      exact writeWkbPointChild_writes hcol hok.start
    · rw [if_neg (by omega), if_neg (by omega), hname, mul_comm]
      exact writeWkbLinestringChild_writes hcol (hok.points hname)
  unfold writeChild
  rw [htotal]
  refine .after hok.found ?_
  dsimp only
  refine hchild.map fun buf => ?_
  rw [u32_eq (by omega), add_assoc]
  rfl

end

/-! ### The result -/

theorem length_postgisHeader (flag : Nat) : (postgisHeader type flag).length = 5 :=
  rfl

theorem pallocBytea_ends (hsize : 4 + size < 2 ^ 32)
    (hE : 4 + size ≤ maxAllocSize ∨ ∀ t, E (.raised t)) :
    Ends E (pallocBytea junk size) fun buf => buf.length = size := by
  unfold pallocBytea palloc
  rw [u32_eq hsize]
  split_ifs with hmax
  · rw [ok_bind]
    show (drop 4 _).length = size
    simp
  · exact (hE.resolve_left hmax) _

def resultHead (g : GeometryData) (type : UInt8) : List UInt8 :=
  postgisHeader type g.dimensionFlag ++ slice g.inputData 0 4

theorem length_resultHead (h : 4 ≤ g.inputData.length) :
    (resultHead g type).length = 9 := by
  rw [resultHead, length_append, length_postgisHeader,
    length_slice_add (l := g.inputData) (a := 0) (n := 4) (by omega)]

section

variable {f : List UInt8 → Checked (List UInt8)} {xs : List UInt8} (h : 4 ≤ g.inputData.length)
  (hf : Writes E size 9 f xs id)
include h hf

theorem writeHead_writes :
    Writes E size 0 (fun buf => do
      let buf ← writeAt buf 0 (postgisHeader type g.dimensionFlag)
      let srid ← readAt g.inputData 0 4
      let buf ← writeAt buf 5 srid
      f buf) (resultHead g type ++ xs) id := by
  have hlen := length_slice_add (l := g.inputData) (a := 0) (n := 4) (by omega)
  refine (Writes.writeAt rfl).seq (.after (readAt_eq (by omega)) ((Writes.writeAt rfl).seq ?_))
  rwa [hlen]

theorem startResult_bind_ends (hfit : 9 + xs.length ≤ size) (hmax : 4 + size < 2 ^ 32)
    (hE : 4 + size ≤ maxAllocSize ∨ ∀ t, E (.raised t)) :
    Ends E (startResult g type size >>= f) (Filled size (resultHead g type ++ xs)) := by
  unfold startResult
  simp only [bind_assoc]
  refine (pallocBytea_ends hmax hE).bind fun buf hbuf => ?_
  refine (writeHead_writes h hf [] buf rfl ?_ (hbuf ▸ Filled.nil buf)).mono ?_
  · rw [length_append, length_resultHead h]
    omega
  · rintro out ⟨buf', rfl, hbuf'⟩
    exact hbuf'

end

theorem postgisHeader_empty (hflag : g.dimensionFlag = 0) (type : UInt8) :
    [0x01, type, 0x00, 0x00, 0x20] = postgisHeader type g.dimensionFlag := by
  rw [hflag]
  rfl

theorem createEmptyGeometry_ends (h : 4 ≤ g.inputData.length) (hflag : g.dimensionFlag = 0)
    (type : UInt8) :
    Ends E (createEmptyGeometry g type) fun out =>
      out = resultHead g type ++ [0x00, 0x00, 0x00, 0x00] := by
  unfold createEmptyGeometry
  rw [postgisHeader_empty hflag]
  refine (pallocBytea_ends (by decide) (.inl (by decide))).bind fun buf hbuf => ?_
  refine (writeHead_writes h (.writeAt rfl)).ends ?_ hbuf
  rw [length_append, length_resultHead h]
  rfl

theorem createEmptyPoint_ends (h : 4 ≤ g.inputData.length) (hflag : g.dimensionFlag = 0) :
    Ends E (createEmptyPoint g) fun out => out = resultHead g 0x01 ++ (nanCoord ++ nanCoord) := by
  unfold createEmptyPoint
  rw [postgisHeader_empty hflag]
  refine (pallocBytea_ends (by decide) (.inl (by decide))).bind fun buf hbuf => ?_
  refine (writeHead_writes h ((Writes.writeAt rfl).seq (.writeAt rfl))).ends ?_ hbuf
  rw [length_append, length_resultHead h]
  rfl

/-- What the size of the parts is found to be. -/
def Sized (g : GeometryData) (total size : Nat) : Prop :=
  size = 13 + childrenSize g (g.nshapes - 1) ∧ size ≤ maxAllocSize ∧
    ∀ i < g.nshapes - 1, ChildOk g total i

/-- The first byte of the type of a geometry of several parts. -/
def multiByte (g : GeometryData) : UInt8 :=
  if g.geomName = 4 then 0x04 else 0x05

/-- **A geometry of several parts**: the parts are written one after the other. -/
theorem handleMultiToPostgis_ends (htotal : ofInt32 g.npoints = total)
    (hcol : Columns g.inputData 10 total g.hasZ g.hasM) (hname : g.geomName = 4 ∨ g.geomName = 5)
    (hsized : Ends E (forRange (addChildSize g) 0 (g.nshapes - 1) 13) (Sized g total))
    (hE : 4 + (13 + childrenSize g (g.nshapes - 1)) ≤ maxAllocSize ∨ ∀ t, E (.raised t)) :
    Ends E (handleMultiToPostgis junk g) fun out =>
      out = resultHead g (multiByte g) ++ (leBytes 4 (g.nshapes - 1)
        ++ childrenBytes g total (g.nshapes - 1)) := by
  have htype : multiTypeByte g = .ok (multiByte g) := by
    unfold multiTypeByte multiByte
    rcases hname with hname | hname <;> simp [hname]
  have hinput : 4 ≤ g.inputData.length := by
    have := hcol.inside
    omega
  unfold handleMultiToPostgis
  simp only [htype, ok_bind]
  refine hsized.bind ?_
  rintro size ⟨hsize, hmax, hok⟩
  have hmax' : maxAllocSize = 2 ^ 30 - 1 := rfl
  have hlen := length_childrenBytes hcol hname hok
  refine (pallocBytea_ends (by omega) (hsize ▸ hE)).bind fun buf hbuf => ?_
  have hwhole : (resultHead g (multiByte g) ++ (leBytes 4 (g.nshapes - 1)
      ++ childrenBytes g total (g.nshapes - 1))).length = size := by
    rw [length_append, length_append, length_resultHead hinput, length_leBytes, hlen, hsize]
    omega
  have hloop : Writes E size 13 (fun buf => forRange (writeChild g) 0 (g.nshapes - 1) (13, buf))
      (childrenBytes g total (g.nshapes - 1))
      fun buf => (13 + childrenSize g (g.nshapes - 1), buf) := by
    refine .forCount (r := fun i buf => (13 + childrenSize g i, buf)) fun i hi => ?_
    have hmono := childrenSize_mono g (show i + 1 ≤ g.nshapes - 1 from hi)
    have hbefore := length_childrenBytes hcol hname fun j hj => hok j (lt_trans hj hi)
    rw [childrenBytes] at hbefore
    rw [hbefore]
    exact writeChild_writes hcol hname htotal (hok i hi) (by omega)
  refine (writeHead_writes hinput ((Writes.writeAt rfl).seq ?_)).ends hwhole hbuf
  exact hloop.map fun _ => rfl

end

end Babelfish.Common.Spatial
