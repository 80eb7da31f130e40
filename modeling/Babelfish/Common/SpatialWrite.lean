import Babelfish.Common.SpatialTables

/-!
# What `construct_result_bytea` writes

For each kind of geometry, with any number of points, rings and parts: the columns of all points and
the tables, behind the header and the number of points.

* `Content.data`: the data of a geometry in the form of T-SQL.
* `Content.written`: the data as it is written, where Z and M are settled.
* `Source`: the binary form of PostGIS holds the geometry.
* `handleTypeData_writes`: the data is written.
-/

namespace Babelfish.Common.Spatial

open Lib List Content

variable {src : Nat} {bytes : List UInt8}

/-! ### The form of T-SQL -/

namespace Content

variable {hasZ hasM : Bool}

/-- The first ring of a polygon is the outer one; all other figures are strokes. -/
def figureAttribute : Content hasZ hasM → Nat → UInt8
  | polygon _, i => if i = 0 then 0x02 else 0x00
  | _, _ => 0x01

def figures (c : Content hasZ hasM) : List Figure :=
  runFigures c.figureAttribute c.runs

def shapes : Content hasZ hasM → List Shape
  | multiPoint ps => multiShapes 4 1 ps.length
  | multiLine lines => multiShapes 5 2 lines.length
  | c => [⟨-1, 0, UInt8.ofNat c.kind⟩]

def isFixed : Content hasZ hasM → Bool
  | point _ => true
  | line ps => decide (ps.length ≤ 2)
  | _ => false

/-- The number of points, the columns and the tables. -/
def data (c : Content hasZ hasM) : List UInt8 :=
  if c.isFixed then columns c.points
  else leBytes 4 c.points.length ++ columns c.points ++ tableBytes c.figures c.shapes

end Content

/-! ### The lengths of both forms -/

section
variable {hasZ hasM : Bool}

theorem length_lines {head : Nat} {write : List (Point hasZ hasM) → List UInt8}
    (h : ∀ ps, (write ps).length = head + ps.length * stride hasZ hasM)
    (lines : List (List (Point hasZ hasM))) :
    (lines.flatMap write).length =
      head * lines.length + lines.flatten.length * stride hasZ hasM := by
  induction lines with
  | nil => simp
  | cons line lines ih =>
    rw [flatMap_cons, length_append, ih, h, length_cons, flatten_cons,
      length_append, Nat.add_mul, Nat.mul_succ]
    omega

theorem length_parts (codes : PartCodes) (ps : List (Point hasZ hasM)) :
    (ps.flatMap fun p => partHead codes 1 hasZ hasM ++ p.bytes).length =
      ps.length * (5 + stride hasZ hasM) := by
  refine length_flatMap_of_length_eq fun p _ => ?_
  rw [length_append, length_partHead, p.length_bytes]

theorem points_multiPoint (ps : List (Point hasZ hasM)) : (multiPoint ps).points = ps := by
  simp [points, runs, ← flatMap_def]

theorem points_line (ps : List (Point hasZ hasM)) : (line ps).points = ps := by
  simp [points, runs]

theorem columns_singleton (p : Point hasZ hasM) : columns [p] = p.bytes := by
  simp [columns, Point.bytes]

theorem points_le {n : Nat} {xs : List UInt8} (hasZ hasM : Bool) (h : OccursAt bytes src xs)
    (hxs : n * stride hasZ hasM ≤ xs.length) (hsmall : bytes.length ≤ 2 ^ 30) :
    n * stride hasZ hasM ≤ 2 ^ 30 ∧ n ≤ 2 ^ 26 := by
  have hle := h.le
  have hmul := mul_stride n hasZ hasM
  omega

end

/-! ### What is written -/

namespace Content

variable {hasZ hasM : Bool}

/-- The points as they are written: a single point is copied as it is. -/
def settledPoints : Content hasZ hasM → List (Point hasZ hasM)
  | point p => [p]
  | c => c.points.map Point.settled

variable (c : Content hasZ hasM)

def written : List UInt8 :=
  if c.isFixed then columns c.settledPoints
  else leBytes 4 c.points.length ++ columns c.settledPoints ++ tableBytes c.figures c.shapes

theorem length_settledPoints : c.settledPoints.length = c.points.length := by
  cases c with
  | point p => rfl
  | _ => exact length_map _

theorem written_eq_data {c : Content hasZ hasM} (h : ∀ p ∈ c.points, p.Finite) :
    c.written = c.data := by
  have hpoints : c.settledPoints = c.points := by
    cases c with
    | point p => rfl
    | _ => exact map_settled h
  rw [written, hpoints, data]

theorem length_data (h : c.isFixed = false) :
    c.data.length = 4 + c.points.length * stride hasZ hasM
      + (8 + 5 * c.runs.length + 9 * c.shapes.length) := by
  rw [data, if_neg (by simp [h]), length_append, length_append, length_leBytes,
    length_columns, length_tableBytes, figures, length_runFigures]

theorem length_written : c.written.length = c.data.length := by
  unfold written data
  split <;> simp only [length_append, length_columns, length_settledPoints]

/-- The geometry is held by the bytes from `offset` on.  There may be more points than those of a
geometry of several points. -/
def Held (bytes : List UInt8) (offset : Nat) : Content hasZ hasM → Prop
  | multiPoint ps =>
    OccursAt bytes (offset + 4) (ps.flatMap fun p => partHead .flags 1 hasZ hasM ++ p.bytes)
  | c => OccursAt bytes offset (c.bytes .flags)

end Content

/-! ### The kinds of geometries -/

/-- The binary form of PostGIS holds the geometry, and what is known about it is right. -/
structure Source (info : GeoDataInfo) (isGeography : Bool) {hasZ hasM : Bool}
    (content : Content hasZ hasM) : Prop where
  hasZ_eq : info.hasZ = hasZ
  hasM_eq : info.hasM = hasM
  data : content.Held info.byteData (info.offset isGeography)
  small : info.byteData.length ≤ 2 ^ 30
  npoints : info.npoints = content.points.length
  kind : info.postgisGeomType = UInt8.ofNat content.kind

section
variable {E : MemFault String → Prop} {size : Nat} {hasZ hasM : Bool} {info : GeoDataInfo}
  {geo : Bool}
variable {ps : List (Point hasZ hasM)} {content : Content hasZ hasM}

theorem Source.stride_eq (h : Source info geo content) : info.stride = stride hasZ hasM := by
  rw [GeoDataInfo.stride, h.hasZ_eq, h.hasM_eq]

theorem columns_room (hasZ hasM : Bool) (n : Nat) :
    n * 16 + (if hasZ then n * 8 else 0) + (if hasM then n * 8 else 0) = n * stride hasZ hasM := by
  cases hasZ <;> cases hasM <;> simp [stride] <;> omega

theorem handleLinestringTypeData_writes (h : Source info geo (.line ps))
    (hcoord : info.coordSize = ps.length * stride hasZ hasM) :
    Writes E size (if 2 < ps.length then 10 else 6) (handleLinestringTypeData info geo)
      (columns (ps.map Point.settled)
        ++ if 2 < ps.length then tableBytes [⟨0x01, 0⟩] [⟨-1, 0, 2⟩] else []) id := by
  have hnpoints : info.npoints = ps.length := by rw [h.npoints, points_line]
  have hdata : OccursAt info.byteData (info.offset geo) (runBytes ps) := h.data
  have hsrc := hdata.right
  have hz := length_column (fun p => p.z.settled) ps
  have hm := length_column (fun p => p.m.settled) ps
  have hroom := columns_room hasZ hasM ps.length
  unfold handleLinestringTypeData
  rw [hnpoints, h.stride_eq, h.hasZ_eq, h.hasM_eq, hcoord, columns_settled, append_assoc,
    append_assoc]
  refine (copyXyCoords_writes hsrc h.small rfl).seq
    ((Writes.ite (fun hz => copyZCoords_writes hsrc h.small hz ?_) (column_eq_nil _ ps)).seq
      ((Writes.ite (fun hm => copyMCoords_writes hsrc h.small hm ?_) (column_eq_nil _ ps)).seq ?_))
  · rw [length_xyColumn]
  · rw [length_xyColumn, hz]
  · by_cases hlong : 2 < ps.length
    · simp only [gt_iff_lt, if_pos hlong]
      unfold writeClrMetadata
      rw [h.kind]
      simp only [hnpoints, gt_iff_lt, if_pos hlong]
      refine writeLinestringClrMetadata_writes ?_
      rw [length_xyColumn, hz, hm]
      omega
    · simp only [gt_iff_lt, if_neg hlong]
      exact .ok id

theorem length_ring_le {rings pre post : List (List (Point hasZ hasM))}
    {ring : List (Point hasZ hasM)} (h : rings = pre ++ ring :: post) :
    pre.flatten.length + ring.length ≤ rings.flatten.length := by
  simp [h]

theorem length_run_lt {runs : List (List (Point hasZ hasM))} (h : runs.flatten.length < 2 ^ 32) :
    ∀ run ∈ runs, run.length < 2 ^ 32 := fun _ hrun =>
  Nat.lt_of_le_of_lt (List.Sublist.length_le (sublist_flatten_of_mem hrun)) h

section

variable (hsize : size < 2 ^ 32) {lines : List (List (Point hasZ hasM))} {present : Bool}
include hsize

theorem handlePolygonTypeData_writes {rings : List (List (Point hasZ hasM))}
    (h : Source info geo (.polygon rings)) :
    Writes E size 10 (handlePolygonTypeData info geo)
      (columns (rings.flatten.map Point.settled)
        ++ tableBytes (runFigures (fun i => if i = 0 then 0x02 else 0x00) rings)
          [⟨-1, 0, 3⟩]) id := by
  have hdata : OccursAt info.byteData (info.offset geo)
      (leBytes 4 rings.length ++ rings.flatMap runBytes) := h.data
  have hrings := hdata.right
  have hlen := length_lines length_runBytes rings
  have hle := hrings.le
  have hsmall := h.small
  have htotal := points_le (n := rings.flatten.length) hasZ hasM hrings (by omega) h.small
  have hcount := length_run_lt (show rings.flatten.length < 2 ^ 32 by omega)
  have hz := fun ps : List (Point hasZ hasM) => length_column (fun p => p.z.settled) ps
  have hm := fun ps : List (Point hasZ hasM) => length_column (fun p => p.m.settled) ps
  unfold handlePolygonTypeData copyRingsXy copyRingsZ copyRingsM
  rw [h.stride_eq, h.hasZ_eq, h.hasM_eq, columns_settled, append_assoc, append_assoc]
  refine .after (readU32_of_occurs hdata.left (by omega))
    ((copyRings_writes Point.xyBytes hrings hcount fun pre r post src _ hr => ?_).seq ?_)
  · refine copyXyCoords_writes hr h.small ?_
    rw [length_xyColumn]
  dsimp only
  refine (Writes.ite (fun hpresent => (copyRings_writes _ hrings hcount
      fun pre r post src hsplit hr => ?_).map fun _ => rfl) (column_eq_nil _ _)).seq
    ((Writes.ite (fun hpresent => (copyRings_writes _ hrings hcount
      fun pre r post src hsplit hr => ?_).map fun _ => rfl) (column_eq_nil _ _)).seq ?_)
  · have hring := length_ring_le hsplit
    refine copyZCoords_writes hr h.small hpresent ?_
    rw [length_xyColumn, hz, if_pos hpresent]
    omega
  · have hring := length_ring_le hsplit
    refine copyMCoords_writes hr h.small hpresent ?_
    rw [length_xyColumn, hz, hm, if_pos hpresent]
    split_ifs <;> omega
  · unfold writeClrMetadata
    rw [h.kind]
    refine writePolygonClrMetadata_writes h.stride_eq hdata (by omega) (by omega) ?_ hsize
    rw [length_xyColumn, hz, hm]

theorem copyPointsIf_writes {write : Point hasZ hasM → List UInt8}
    (v : Point hasZ hasM → OptCoord present) {pos dst other done off step : Nat}
    (hsrc : OccursAt bytes src (ps.flatMap write)) (hstep : ∀ p, (write p).length = step)
    (hv : ∀ p src, OccursAt bytes src (write p) → OccursAt bytes (src + off) (v p).bytes)
    (hsmall : bytes.length ≤ 2 ^ 30) (hdst : dst + done = pos) :
    Writes E size pos
      (fun buf => copyPointsIf present (copyPointCoord bytes dst step off) src ps.length
        ⟨other, done, buf⟩)
      (ps.flatMap fun p => (v p).settled.bytes)
      fun buf => ⟨if present then src + (ps.flatMap write).length else other,
        done + (ps.flatMap fun p => (v p).settled.bytes).length, buf⟩ := by
  cases present with
  | false =>
    rw [column_eq_nil (fun p => (v p).settled) ps rfl]
    exact .ok _
  | true =>
    refine copyPass_writes _ hsrc hdst fun p _ i src done hp => ?_
    rw [hstep]
    exact copyPointCoord_writes rfl hp (hstep p) (hv p src hp) hsmall hsize

theorem handleMultipointTypeData_writes (h : Source info geo (.multiPoint ps)) :
    Writes E size 10 (handleMultipointTypeData info geo)
      (columns (ps.map Point.settled) ++ tableBytes (pointFigures ps.length)
        (multiShapes 4 1 ps.length)) id := by
  have hsrc : OccursAt info.byteData (info.offset geo + 4)
      (ps.flatMap fun p => partHead .flags 1 hasZ hasM ++ p.bytes) := h.data
  have hnpoints : info.npoints = ps.length := by rw [h.npoints, points_multiPoint]
  have hhead := length_partHead .flags 1 hasZ hasM
  have hpart : ∀ p : Point hasZ hasM,
      (partHead .flags 1 hasZ hasM ++ p.bytes).length = 5 + stride hasZ hasM := by
    intro p
    rw [length_append, p.length_bytes, hhead]
  have hplaces : ∀ (p : Point hasZ hasM) (src : Nat),
      OccursAt info.byteData src (partHead .flags 1 hasZ hasM ++ p.bytes) →
      OccursAt info.byteData (src + (5 + 16)) p.z.bytes ∧
        OccursAt info.byteData (src + (5 + 16 + if hasZ then 8 else 0)) p.m.bytes := by
    intro p src hp
    have hbytes := hp.right
    rw [hhead] at hbytes
    simpa only [Nat.add_assoc] using (point_places hbytes).2
  unfold handleMultipointTypeData
  rw [hnpoints, h.stride_eq, h.hasZ_eq, h.hasM_eq, columns_settled, append_assoc, append_assoc]
  refine (copyPass_writes Point.xyBytes hsrc (show 10 + 0 = 10 from rfl)
    fun p _ i src done hp => ?_).seq ?_
  · rw [hpart]
    exact copyPointXy_writes hp (hpart p) hhead h.small hsize
  refine (copyPointsIf_writes hsize (fun p => p.z) hsrc hpart
    (fun p src hp => (hplaces p src hp).1) h.small (by omega)).seq ?_
  refine (copyPointsIf_writes hsize (fun p => p.m) hsrc hpart
    (fun p src hp => (hplaces p src hp).2) h.small (by omega)).seq ?_
  dsimp only
  exact writeMultipointClrMetadata_writes (by omega) hsize

theorem copyLinesIf_writes (v : Point hasZ hasM → OptCoord present) {pos dst off done : Nat}
    (hsrc : OccursAt bytes src (lines.flatMap lineBytes))
    (hcount : ∀ ps ∈ lines, ps.length < 2 ^ 32)
    (hv : ∀ p src, OccursAt bytes src p.bytes → OccursAt bytes (src + off) (v p).bytes)
    (hsmall : bytes.length ≤ 2 ^ 30) (hdst : dst + done = pos) :
    Writes E size pos (copyLinesIf present bytes
        (copyPointCoord bytes dst (stride hasZ hasM) off) src done lines.length)
      (lines.flatten.flatMap fun p => (v p).settled.bytes) id := by
  refine .ite (fun hpresent => ?_) (column_eq_nil _ _)
  refine copyLines_writes _ hsrc hcount hsmall hdst fun p i src done hp => ?_
  rw [p.length_bytes]
  exact copyPointCoord_writes hpresent hp p.length_bytes (hv p src hp) hsmall hsize

theorem handleMultilinestringTypeData_writes (h : Source info geo (.multiLine lines)) :
    Writes E size 10 (handleMultilinestringTypeData info geo)
      (columns (lines.flatten.map Point.settled) ++ tableBytes (runFigures (fun _ => 0x01) lines)
        (multiShapes 5 2 lines.length)) id := by
  have hdata : OccursAt info.byteData (info.offset geo)
      (leBytes 4 lines.length ++ lines.flatMap lineBytes) := h.data
  have hlines := hdata.right
  have hlen := length_lines length_lineBytes lines
  have hle := hlines.le
  have hsmall := h.small
  have htotal := points_le (n := lines.flatten.length) hasZ hasM hlines (by omega) h.small
  have hcount := length_run_lt (show lines.flatten.length < 2 ^ 32 by omega)
  have hnpoints : info.npoints = lines.flatten.length := h.npoints
  have hz := length_column (fun p => p.z.settled) lines.flatten
  have hm := length_column (fun p => p.m.settled) lines.flatten
  unfold handleMultilinestringTypeData
  rw [h.stride_eq, h.hasZ_eq, h.hasM_eq, hnpoints, columns_settled, append_assoc, append_assoc]
  refine .after (readU32_of_occurs hdata.left (by omega)) (.seq (.ite (fun _ => ?_) ?_)
    ((copyLinesIf_writes hsize (fun p => p.z) hlines hcount
      (fun p src hp => (point_places hp).2.1) h.small ?_).seq
    ((copyLinesIf_writes hsize (fun p => p.m) hlines hcount (fun p src hp => ?_) h.small ?_).seq
      (writeMultilinestringClrMetadata_writes h.stride_eq hdata h.small (by omega) (by omega) ?_
        hsize))))
  · refine copyLines_writes Point.xyBytes hlines hcount h.small rfl fun p i src done hp => ?_
    rw [p.length_bytes]
    exact copyPointXy_writes (show OccursAt _ src ([] ++ p.bytes) from hp) p.length_bytes rfl
      h.small hsize
  · exact fun h => absurd h (by decide)
  · rw [length_xyColumn]
  · simpa only [Nat.add_assoc] using (point_places hp).2.2
  · rw [length_xyColumn, hz, Nat.add_assoc]
  · rw [length_xyColumn, hz, hm]

/-- **The data of every kind of geometry is written.** -/
theorem handleTypeData_writes (h : Source info geo content)
    (hcoord : info.coordSize = content.points.length * stride hasZ hasM) :
    Writes E size 6 (handleTypeData info geo) content.written id := by
  unfold handleTypeData
  rw [h.kind]
  cases content with
  | point p =>
    have hp : OccursAt info.byteData (info.offset geo) p.bytes := h.data
    have hlen : p.bytes.length = info.coordSize := by
      rw [p.length_bytes, hcoord]
      exact (Nat.one_mul _).symm
    show Writes E size 6 _ (columns [p]) id
    rw [columns_singleton]
    exact .after (hp.readAt_eq hlen) (.writeAt rfl)
  | line ps =>
    have hnpoints : info.npoints = ps.length := by rw [h.npoints, points_line]
    rw [points_line] at hcoord
    have hline : Writes E size _ (handleLinestringTypeData info geo) _ id :=
      handleLinestringTypeData_writes h hcoord
    have hsettled : (line ps).settledPoints = ps.map Point.settled :=
      congrArg (List.map Point.settled) (points_line ps)
    rw [written, hsettled, points_line]
    by_cases hlong : 2 < ps.length
    · have hfixed : (line ps).isFixed = false := by simp [isFixed, hlong]
      rw [if_pos hlong, if_pos hlong] at hline
      simp only [hnpoints, gt_iff_lt, if_pos hlong, hfixed, Bool.false_eq_true, if_false,
        append_assoc]
      refine (Writes.writeAt rfl).seq ?_
      exact hline
    · have hfixed : (line ps).isFixed = true := by simp [isFixed]; omega
      rw [if_neg hlong, if_neg hlong, append_nil] at hline
      simp only [hnpoints, gt_iff_lt, if_neg hlong, hfixed, if_true]
      exact hline
  | polygon rings =>
    show Writes E size 6 _ (leBytes 4 rings.flatten.length ++ _ ++ _) id
    rw [h.npoints, append_assoc]
    refine (Writes.writeAt rfl).seq ?_
    exact handlePolygonTypeData_writes hsize h
  | multiPoint ps =>
    show Writes E size 6 _ (leBytes 4 (multiPoint ps).points.length ++ _ ++ _) id
    rw [h.npoints, append_assoc]
    refine (Writes.writeAt rfl).seq ?_
    have hsettled : (multiPoint ps).settledPoints = ps.map Point.settled :=
      congrArg (List.map Point.settled) (points_multiPoint ps)
    have hpoints := handleMultipointTypeData_writes (E := E) hsize h
    rw [length_leBytes, hsettled]
    rwa [pointFigures_eq] at hpoints
  | multiLine lines =>
    show Writes E size 6 _ (leBytes 4 lines.flatten.length ++ _ ++ _) id
    rw [h.npoints, append_assoc]
    refine (Writes.writeAt rfl).seq ?_
    rw [length_leBytes]
    exact handleMultilinestringTypeData_writes hsize h

end

end

end Babelfish.Common.Spatial
