import Babelfish.Common.SpatialParse

/-!
# The way back

From the form of T-SQL of a geometry, `process_geometry_data` makes the binary form of PostGIS of
the same geometry.  What it reads from the three columns is put together point by point, and the
figures say where the runs of points begin that it writes.

* `columnPoints_columns`: the points of a run, read from the columns.
* `processGeometryData_clrBytes`: the result for a geometry with points.
* `processGeometryData_emptyBytes`: the result for a geometry of two dimensions without points.
-/

namespace Babelfish.Common.Spatial

open Lib List Content GeometryData

variable {i : Nat} {junk : Nat → UInt8} {d : GeometryData}

/-! ### Points from columns -/

section
variable {hasZ hasM : Bool} {input : List UInt8} {src : Nat}

theorem slice_optCoord {present : Bool} {v : OptCoord present} {pos : Nat}
    (h : present = true → OccursAt input pos v.bytes) :
    (if present then slice input pos (pos + 8) else []) = v.bytes := by
  have hlen := v.length_bytes
  cases present with
  | false => exact (eq_nil_of_length_eq_zero hlen).symm
  | true =>
    have heq := (h rfl).slice_eq
    rwa [hlen] at heq

theorem columnPoint_columns {pre post : List (Point hasZ hasM)} {p : Point hasZ hasM}
    (h : OccursAt input src (columns (pre ++ p :: post))) :
    columnPoint input src (pre ++ p :: post).length hasZ hasM pre.length = p.bytes := by
  have hxy := h.left.left.part
  have hz := h.left.right.part
  have hm := h.right.part
  rw [length_xyColumn] at hxy hz
  rw [length_append, length_xyColumn, length_column fun p => p.z] at hm
  rw [length_column fun p => p.z] at hz
  rw [length_column fun p => p.m, ← add_assoc src] at hm
  have hxyEq := hxy.slice_eq
  rw [p.length_xyBytes] at hxyEq
  unfold columnPoint pointBytes Point.bytes
  rw [hxyEq, slice_optCoord (v := p.z) ?_, slice_optCoord (v := p.m) ?_]
  · intro hpresent
    rwa [if_pos hpresent] at hm
  · intro hpresent
    rwa [if_pos hpresent] at hz

/-- **The points of a run** are put together from the columns. -/
theorem columnPoints_columns {pre run post : List (Point hasZ hasM)}
    (h : OccursAt input src (columns (pre ++ run ++ post))) :
    columnPoints input src (pre ++ run ++ post).length hasZ hasM pre.length run.length =
      run.flatMap Point.bytes := by
  refine flatMap_range_length fun before p after hrun => ?_
  have hall : pre ++ run ++ post = (pre ++ before) ++ p :: (after ++ post) := by
    rw [hrun]
    simp
  rw [hall] at h ⊢
  rw [← length_append]
  exact columnPoint_columns h

theorem columnPoints_all {ps : List (Point hasZ hasM)} (h : OccursAt input src (columns ps)) :
    columnPoints input src ps.length hasZ hasM 0 ps.length = ps.flatMap Point.bytes := by
  have hocc : OccursAt input src (columns ([] ++ ps ++ [])) := by simpa using h
  simpa using columnPoints_columns hocc

end

/-! ### The head of the result -/

section
variable {geo isValid : Bool} {g : Geometry} {d : GeometryData}

theorem slice_srid : slice (clrBytes geo isValid g) 0 4 = leBytes 4 g.srid.toNat := by
  have heq := (occurs_clrBytes geo isValid g).left.left.slice_eq
  rwa [length_leBytes] at heq

theorem resultHead_append (hinput : d.inputData = clrBytes geo isValid g)
    (hflag : d.dimensionFlag = dimsCode g.hasZ g.hasM + 1) :
    resultHead d (UInt8.ofNat g.content.kind) ++ g.content.bytes .iso = ewkb .iso true g := by
  have hheader : ∀ hasZ hasM : Bool, dimensionHeaders.getD (dimsCode hasZ hasM + 1) 0x20 =
      flagByte hasZ hasM true := by decide
  rw [resultHead, hinput, slice_srid, hflag, postgisHeader, hheader, ewkb,
    leBytes_flagWord g.content.kind_bounds, if_pos rfl]
  rfl

theorem startResult_bind_eq {type : UInt8} {size : Nat} {f : List UInt8 → Checked (List UInt8)}
    {body : List UInt8} (hinput : 4 ≤ d.inputData.length) (hsize : size = 9 + body.length)
    (hmax : 4 + size ≤ maxAllocSize) (hf : Writes (fun _ => False) size 9 f body id) :
    (startResult d type size >>= f) = .ok (resultHead d type ++ body) := by
  have hlimit : maxAllocSize = 2 ^ 30 - 1 := rfl
  have hends : Ends (fun _ => False) (startResult d type size >>= f)
      (Filled size (resultHead d type ++ body)) :=
    startResult_bind_ends hinput hf (le_of_eq hsize.symm) (by omega) (.inl hmax)
  obtain ⟨out, hout, hfilled⟩ := hends.exists_ok
  rw [hout, hfilled.eq (by rw [length_append, length_resultHead hinput, hsize])]

end

/-! ### The kinds of geometries -/

section
variable {hasZ hasM : Bool} {d : GeometryData} (hz : d.hasZ = hasZ) (hm : d.hasM = hasM)

include hz hm in
theorem convertGeometry_line {ps : List (Point hasZ hasM)} (hname : d.geomName = 2)
    (hnumber : (if d.hasNpointsData then ofInt32 d.npoints else 2) = ps.length)
    (hocc : OccursAt d.inputData d.source (columns ps)) (hsmall : d.inputData.length ≤ 2 ^ 30)
    (hsize : calculateLinestringSize d = 13 + ps.length * stride hasZ hasM)
    (hmax : 4 + calculateLinestringSize d ≤ maxAllocSize) :
    convertGeometry junk d = .ok (resultHead d 0x02 ++ runBytes ps) := by
  have hin := hocc.le
  rw [length_columns] at hin
  have hsource : 6 ≤ d.source := Nat.le_add_right _ _
  have hcol : Columns d.inputData d.source ps.length hasZ hasM := ⟨hin, hsmall⟩
  unfold convertGeometry
  rw [hname]
  refine startResult_bind_eq (by omega) ?_ hmax ?_
  · rw [hsize, length_runBytes]
    omega
  · subst hz hm
    rw [runBytes, ← columnPoints_all hocc]
    exact handleLinestringCoordinates_writes hcol hnumber

include hz hm in
theorem convertGeometry_point {p : Point hasZ hasM} (hname : d.geomName = 1)
    (hocc : OccursAt d.inputData d.source (columns [p])) (hsmall : d.inputData.length ≤ 2 ^ 30) :
    convertGeometry junk d = .ok (resultHead d 0x01 ++ p.bytes) := by
  have hin := hocc.le
  rw [length_columns] at hin
  have hst := stride_bounds hasZ hasM
  have hlimit : maxAllocSize = 2 ^ 30 - 1 := rfl
  have hsource : 6 ≤ d.source := Nat.le_add_right _ _
  have hpoint := columnPoint_columns (show OccursAt _ _ (columns ([] ++ [p])) from hocc)
  subst hz hm
  unfold convertGeometry calculatePointSize
  rw [hname]
  refine startResult_bind_eq (by omega) (by rw [p.length_bytes]) (by omega) ?_
  rw [← hpoint]
  exact handlePointCoordinates_writes ⟨hin, hsmall⟩

section
variable {runs : List (List (Point hasZ hasM))} {figureAttribute : Nat → UInt8}

theorem columnPoints_run {src : Nat} {pre post : List (List (Point hasZ hasM))}
    {run : List (Point hasZ hasM)} (hruns : runs = pre ++ run :: post)
    (hocc : OccursAt d.inputData src (columns runs.flatten)) :
    columnPoints d.inputData src runs.flatten.length hasZ hasM pre.flatten.length run.length =
      run.flatMap Point.bytes := by
  have hall : runs.flatten = pre.flatten ++ run ++ post.flatten := by
    rw [hruns]
    simp
  rw [hall] at hocc ⊢
  exact columnPoints_columns hocc

include hz hm in
theorem ringsBytes_eq (hfigures : d.figures = runFigures figureAttribute runs)
    (hocc : OccursAt d.inputData d.source (columns runs.flatten)) :
    ringsBytes d runs.flatten.length runs.length = runs.flatMap runBytes := by
  unfold ringsBytes
  refine flatMap_range_length fun pre run post hruns => ?_
  obtain ⟨hstart, hpoints⟩ := figureStart_sub hfigures rfl hruns
  unfold ringBytes runBytes
  simp only [hstart] at hpoints ⊢
  rw [hpoints, hz, hm, columnPoints_run hruns hocc]

include hz hm in
theorem convertGeometry_polygon (hname : d.geomName = 3)
    (hfigures : d.figures = runFigures figureAttribute runs)
    (htabled : Tabled d runs.flatten.length) (hocc : OccursAt d.inputData 10 (columns runs.flatten))
    (hsize : calculatePolygonSize d =
      13 + (4 * runs.length + runs.flatten.length * stride hasZ hasM))
    (hmax : 4 + calculatePolygonSize d ≤ maxAllocSize) :
    convertGeometry junk d =
      .ok (resultHead d 0x03 ++ (leBytes 4 runs.length ++ runs.flatMap runBytes)) := by
  have hcount : d.nfigures = runs.length := by
    rw [← htabled.figures.length, hfigures, length_runFigures]
  have hin := htabled.columns.inside
  have hw := htabled.columns.no_wrap
  have hfew := htabled.few
  rw [← htabled.source_eq] at hocc
  unfold convertGeometry
  rw [hname]
  refine startResult_bind_eq (by omega) ?_ hmax ?_
  · rw [hsize, length_append, length_leBytes, length_lines length_runBytes]
    omega
  · rw [← ringsBytes_eq hz hm hfigures hocc, ← hcount]
    exact handlePolygonCoordinates_writes (by rw [htabled.source_eq]; exact htabled.columns)
      htabled.hasData htabled.ofInt32_npoints htabled.figures (by omega)

/-! ### Geometries of several parts -/

section
variable {n : Nat} {rootType childType : UInt8}

section

variable (h : Tabled d n) (hshapes : d.shapes = multiShapes rootType childType d.nfigures)
  (hi : i < d.nfigures)
include h hshapes hi

theorem childOf_eq :
    childOf d i = (d.figureStart n i, d.figureStart n (i + 1) - d.figureStart n i) := by
  rw [childOf, getChildInfo_eq hshapes h hi]

theorem childOk_of_shapes : ChildOk d n i := by
  have hgrows := h.figures.grows i hi
  have hle := h.figures.start_le (show i + 1 ≤ d.nfigures from hi)
  have hchild := childOf_eq h hshapes hi
  refine ⟨?_, ?_, fun _ => ?_⟩
  · rw [getChildInfo_eq hshapes h hi, hchild]
  · rw [hchild]
    exact lt_of_lt_of_le hgrows hle
  · rw [hchild]
    omega

end

theorem addChildSize_eq (hname : d.geomName = 4 ∨ d.geomName = 5) {acc : Nat} (hok : ChildOk d n i)
    (hmax : acc + childSize d i ≤ maxAllocSize) :
    addChildSize d i acc = .ok (acc + childSize d i) := by
  have hsize : calculateChildWkbSize d.geomName (childOf d i).2 d.hasZ d.hasM =
      .ok (childSize d i) := by
    unfold childSize at hmax ⊢
    rcases hname with hname | hname
    · rw [if_pos hname, hname]
      rfl
    · rw [if_neg (by omega)] at hmax ⊢
      rw [hname]
      show (throwIf (9 + (childOf d i).2 * stride d.hasZ d.hasM > maxAllocSize) >>= _) = _
      rw [throwIf_eq (by omega)]
      rfl
  unfold addChildSize
  rw [hok.found, ok_bind, hsize, ok_bind, throwIf_eq (by omega)]
  rfl

/-- **A geometry of several parts**, each of which has the points of one figure. -/
theorem convertGeometry_multi (junk : Nat → UInt8) (part : List (Point hasZ hasM) → List UInt8)
    (hname : d.geomName = 4 ∨ d.geomName = 5) (hcount : d.nfigures = runs.length)
    (htabled : Tabled d n) (hshapes : d.shapes = multiShapes rootType childType d.nfigures)
    (hpart : ∀ pre run post, runs = pre ++ run :: post → childBytes d n pre.length = part run)
    (hmax : 4 + (13 + (runs.flatMap part).length) ≤ maxAllocSize) :
    convertGeometry junk d =
      .ok (resultHead d (multiByte d) ++ (leBytes 4 runs.length ++ runs.flatMap part)) := by
  have hchildren : d.nshapes - 1 = runs.length := by
    rw [← htabled.shapes, hshapes, length_multiShapes, hcount]
    rfl
  have hok : ∀ i < runs.length, ChildOk d n i := by
    intro i hi
    exact childOk_of_shapes htabled hshapes (by omega)
  have hbytes : childrenBytes d n runs.length = runs.flatMap part := flatMap_range_length hpart
  have hlen := length_childrenBytes htabled.columns hname hok
  rw [hbytes] at hlen
  have hsized : Ends (fun _ => False) (forRange (addChildSize d) 0 (d.nshapes - 1) 13)
      (Sized d n) := by
    rw [hchildren]
    refine (Ends.forCount (I := fun i size => size = 13 + childrenSize d i) rfl ?_).mono ?_
    · rintro i size hi rfl
      have hmono := childrenSize_mono d (show i + 1 ≤ runs.length from hi)
      have hsum : childrenSize d (i + 1) = childrenSize d i + childSize d i := rfl
      rw [addChildSize_eq hname (hok i hi) (by omega), hsum]
      exact add_assoc _ _ _
    · rintro size rfl
      rw [Sized, hchildren]
      exact ⟨rfl, by omega, hok⟩
  have hends : Ends (fun _ => False) (handleMultiToPostgis junk d) _ :=
    handleMultiToPostgis_ends htabled.ofInt32_npoints htabled.columns hname hsized
      (.inl (by rw [hchildren, ← hlen]; exact hmax))
  rw [hchildren, hbytes] at hends
  obtain ⟨out, hout, rfl⟩ := hends.exists_ok
  have hconvert : convertGeometry junk d = handleMultiToPostgis junk d := by
    unfold convertGeometry
    rcases hname with hname | hname <;> rw [hname] <;> rfl
  rw [hconvert, hout]

theorem getWkbType_eq (kind : Nat) (hasZ hasM : Bool) :
    getWkbType kind hasZ hasM = isoWord kind hasZ hasM := by
  unfold getWkbType isoWord
  cases hasZ <;> cases hasM <;> simp

variable (hfigures : d.figures = runFigures figureAttribute runs)
  (htabled : Tabled d runs.flatten.length)
  (hshapes : d.shapes = multiShapes rootType childType d.nfigures)
  (hocc : OccursAt d.inputData 10 (columns runs.flatten)) {pre post : List (List (Point hasZ hasM))}
  {run : List (Point hasZ hasM)} (hruns : runs = pre ++ run :: post)

include hfigures htabled hruns

theorem lt_nfigures : pre.length < d.nfigures := by
  rw [← htabled.figures.length, hfigures, length_runFigures, hruns, length_append, length_cons]
  omega

include hz hm hshapes hocc

theorem childBytes_point (hname : d.geomName = 4) (hone : run.length = 1) :
    childBytes d runs.flatten.length pre.length =
      partHead .iso 1 hasZ hasM ++ run.flatMap Point.bytes := by
  have hi := lt_nfigures hfigures htabled hruns
  have hpoint := columnPoints_run (d := d) hruns hocc
  rw [hone] at hpoint
  rw [childBytes, if_pos hname, childOf_eq htabled hshapes hi,
    (figureStart_sub hfigures rfl hruns).1, hz, hm, ← hpoint, columnPoints_succ]
  unfold pointChild partHead
  rw [getWkbType_eq]
  rfl

theorem childBytes_line (hname : d.geomName = 5) :
    childBytes d runs.flatten.length pre.length = partHead .iso 2 hasZ hasM ++ runBytes run := by
  have hi := lt_nfigures hfigures htabled hruns
  have hsub := figureStart_sub hfigures rfl hruns
  rw [childBytes, if_neg (by omega), childOf_eq htabled hshapes hi, hsub.2, hsub.1, hz, hm]
  unfold lineChild partHead runBytes
  rw [columnPoints_run hruns hocc, getWkbType_eq, append_assoc]

end

end

end

/-! ### Geometries with tables -/

/-- **The result for a geometry with tables**, whatever its kind is. -/
theorem convertGeometry_tabled {hasZ hasM : Bool} {c : Content hasZ hasM}
    (hfixed : c.isFixed = false) (hname : d.geomName = c.kind) (hz : d.hasZ = hasZ)
    (hm : d.hasM = hasM) (hfigures : d.figures = c.figures) (hshapes : d.shapes = c.shapes)
    (htabled : Tabled d c.points.length) (hocc : OccursAt d.inputData 10 (columns c.points))
    (hlen : d.inputData.length = 10 + c.points.length * stride hasZ hasM +
      (8 + 5 * c.runs.length + 9 * c.shapes.length))
    (hfits : 4 + d.inputData.length ≤ maxAllocSize) :
    convertGeometry junk d = .ok (resultHead d (UInt8.ofNat c.kind) ++ c.bytes .iso) := by
  have hcount : d.nfigures = c.runs.length := by
    rw [← htabled.figures.length, hfigures]
    exact length_runFigures _
  cases c with
  | point p => cases hfixed
  | line ps =>
    have hsize := calculateLinestringSize_tabled htabled
    have hsmall := htabled.columns.small
    rw [points_line] at htabled hocc hlen
    rw [show (line ps).runs.length = 1 from rfl, show (line ps).shapes.length = 1 from rfl] at hlen
    refine convertGeometry_line hz hm hname ?_ (by rw [htabled.source_eq]; exact hocc) hsmall
      (by omega) (by omega)
    rw [if_pos htabled.hasData, htabled.ofInt32_npoints]
  | polygon rings =>
    have hsize := calculatePolygonSize_tabled htabled
    have hmeta := htabled.size
    have hnshapes : d.nshapes = 1 := by rw [← htabled.shapes, hshapes]; rfl
    have hrings : (polygon rings).runs = rings := rfl
    rw [show (polygon rings).shapes.length = 1 from rfl, hrings,
      show (polygon rings).points = rings.flatten from rfl] at hlen
    rw [hrings] at hcount
    exact convertGeometry_polygon hz hm hname hfigures htabled hocc (by omega) (by omega)
  | multiPoint ps =>
    have hruns : (ps.map fun p => [p]).length = ps.length := length_map _
    have hcount : d.nfigures = (ps.map fun p => [p]).length := hcount
    have hchildren : d.shapes = multiShapes 4 1 d.nfigures := by
      rw [hshapes, hcount]
      exact congrArg (multiShapes 4 1) hruns.symm
    have hpart : ∀ pre run post, (ps.map fun p => [p]) = pre ++ run :: post →
        childBytes d (multiPoint ps).points.length pre.length =
          partHead .iso 1 hasZ hasM ++ run.flatMap Point.bytes := by
      intro pre run post hrun
      obtain ⟨p, -, rfl⟩ : ∃ p ∈ ps, [p] = run := mem_map.mp (by rw [hrun]; simp)
      exact childBytes_point hz hm hfigures htabled hchildren hocc hrun hname rfl
    have hparts : ((ps.map fun p => [p]).flatMap fun run : List (Point hasZ hasM) =>
        partHead .iso 1 hasZ hasM ++ run.flatMap Point.bytes) =
        ps.flatMap fun p => partHead .iso 1 hasZ hasM ++ p.bytes := by
      rw [flatMap_map]
      simp
    have hconvert := convertGeometry_multi junk _ (.inl hname) hcount htabled hchildren hpart
    rw [hparts, length_parts, hruns] at hconvert
    rw [points_multiPoint, show (multiPoint ps).runs.length = ps.length from hruns,
      show (multiPoint ps).shapes.length = ps.length + 1 from length_multiShapes 4 1 _]
      at hlen
    rw [hconvert (by rw [mul_add]; omega), show multiByte d = 0x04 from if_pos hname]
    rfl
  | multiLine lines =>
    have hcount : d.nfigures = lines.length := hcount
    have hchildren : d.shapes = multiShapes 5 2 d.nfigures := by
      rw [hshapes, hcount]
      rfl
    have hpart : ∀ pre run post, lines = pre ++ run :: post →
        childBytes d (multiLine lines).points.length pre.length =
          partHead .iso 2 hasZ hasM ++ runBytes run := by
      intro pre run post hrun
      exact childBytes_line hz hm hfigures htabled hchildren hocc hrun hname
    have hline : ∀ ps : List (Point hasZ hasM), (partHead .iso 2 hasZ hasM ++ runBytes ps).length =
        9 + ps.length * stride hasZ hasM := by
      intro ps
      rw [length_append, length_partHead, length_runBytes]
      omega
    have hconvert := convertGeometry_multi junk _ (.inr hname) hcount htabled hchildren hpart
    rw [length_lines hline] at hconvert
    rw [show (multiLine lines).points = lines.flatten from rfl,
      show (multiLine lines).shapes.length = lines.length + 1 from
        length_multiShapes 5 2 _] at hlen
    have hfive : d.geomName = 5 := hname
    rw [hconvert (by omega), show multiByte d = 0x05 from if_neg (by omega)]
    rfl

/-! ### The whole way -/

/-- What `process_geometry_data` makes of the data of a `bytea`. -/
def processBytea (junk : Nat → UInt8) (input : List UInt8) : Checked (List UInt8) := do
  let d ← initializeGeometryData input
  let d ← setDimensionFlag d
  let processed ← processGeometryData junk d
  return processed.2

section
variable {geo isValid : Bool} {g : Geometry}

theorem processBytea_of_kind (hwf : g.content.WellFormed)
    (hpoints : g.content.points ≠ []) (hsmall : (clrBytes geo isValid g).length ≤ 2 ^ 30)
    (hkind : resolveKind (readForm geo isValid g) = .ok d)
    (hinput : d.inputData = clrBytes geo isValid g)
    (hflag : d.dimensionFlag = dimsCode g.hasZ g.hasM + 1) (hconvert : convertGeometry junk d =
      .ok (resultHead d (UInt8.ofNat g.content.kind) ++ g.content.bytes .iso)) :
    processBytea junk (clrBytes geo isValid g) = .ok (ewkb .iso true g) := by
  unfold processBytea
  rw [← bind_assoc, setDimensionFlag_clrBytes hwf hpoints hsmall, ok_bind, processGeometryData,
    if_neg (show ¬(readForm geo isValid g).dimensionFlag = 0 from Nat.succ_ne_zero _),
    handleNonEmptyGeometryBytea, hkind, ok_bind, hconvert, ok_bind, resultHead_append hinput hflag]
  rfl

/-- **A form of T-SQL without tables** gives the binary form of its geometry. -/
theorem processBytea_fixed (hwf : g.content.WellFormed) (hfixed : g.content.isFixed = true)
    (hfits : 4 + (clrBytes geo isValid g).length ≤ maxAllocSize) :
    processBytea junk (clrBytes geo isValid g) = .ok (ewkb .iso true g) := by
  have hlimit : maxAllocSize = 2 ^ 30 - 1 := rfl
  have hlen := length_clrBytes geo isValid g
  have hcount := length_points_of_isFixed hwf hfixed
  have hpoints : g.content.points ≠ [] := by
    intro hnil
    rw [hnil] at hcount
    split at hcount <;> cases hcount
  have hst := stride_bounds g.hasZ g.hasM
  have hocc := occurs_data geo isValid g
  rw [data, if_pos hfixed] at hocc hlen
  rw [length_columns] at hlen
  have hnumber : (readForm geo isValid g).hasNpointsData = false := by
    simp [readForm, hfixed]
  have hname : (readForm geo isValid g).geomName = g.content.kind := by
    simp [readForm, hfixed]
  have hsource : (readForm geo isValid g).source = 6 := by
    rw [source, hnumber]
    rfl
  have hz : (readForm geo isValid g).hasZ = g.hasZ := hasZ_of_dimsCode rfl
  have hm : (readForm geo isValid g).hasM = g.hasM := hasM_of_dimsCode rfl
  have hsmall : (readForm geo isValid g).inputData.length ≤ 2 ^ 30 := by
    show (clrBytes geo isValid g).length ≤ 2 ^ 30
    omega
  refine processBytea_of_kind hwf hpoints (by omega) (if_neg (by simp [hnumber])) rfl rfl ?_
  obtain ⟨srid, hasZ, hasM, content⟩ := g
  cases content with
  | point p => exact convertGeometry_point hz hm hname (by rw [hsource]; exact hocc) hsmall
  | line ps =>
    have htwo : ps.length = 2 := by rw [← points_line ps]; exact hcount
    rw [points_line] at hocc hlen
    have hwhole : (readForm geo isValid ⟨srid, hasZ, hasM, .line ps⟩).inputData.length =
        6 + ps.length * stride hasZ hasM := hlen
    dsimp only at hst hz hm
    have hsize := calculateLinestringSize_fixed hnumber (by rw [hwhole, htwo]; omega) hsmall
    rw [hwhole] at hsize
    refine convertGeometry_line hz hm hname ?_ (by rw [hsource]; exact hocc)
      hsmall (by rw [hsize]; omega) (by rw [hsize, htwo]; omega)
    rw [if_neg (by simp [hnumber]), htwo]
  | polygon rings | multiPoint ps | multiLine lines => cases hfixed

/-- **A form of T-SQL with tables** gives the binary form of its geometry. -/
theorem processBytea_tables (h : NeedsTables geo isValid g)
    (hfits : 4 + (clrBytes geo isValid g).length ≤ maxAllocSize) :
    processBytea junk (clrBytes geo isValid g) = .ok (ewkb .iso true g) := by
  have htabled := h.tabled
  have hkind : resolveKind (readForm geo isValid g) =
      .ok (tabledForm geo isValid g) := by
    rw [resolveKind, if_pos ⟨htabled.hasData, by simp [readForm, h.tables]⟩,
      h.parseFiguresAndShapes_clrBytes]
  refine processBytea_of_kind h.wellFormed h.points h.small hkind rfl rfl ?_
  exact convertGeometry_tabled h.tables rfl (NeedsTables.hasZ_eq geo isValid g)
    (NeedsTables.hasM_eq geo isValid g) rfl rfl htabled h.occurs_columns h.length_eq hfits

/-! ### Geometries without points -/

theorem bytes_of_points_nil {hasZ hasM : Bool} {c : Content hasZ hasM} (hwf : c.WellFormed)
    (hpoints : c.points = []) :
    c.bytes .iso = [0x00, 0x00, 0x00, 0x00] ∧ UInt8.ofNat c.kind ∈ [3, 4, 5] := by
  have hruns : c.runs = [] := by
    cases hr : c.runs with
    | nil => rfl
    | cons run runs =>
      refine absurd ?_ (hwf.run_ne_nil run (by rw [hr]; exact mem_cons_self))
      rw [points, hr, flatten_cons] at hpoints
      exact (append_eq_nil_iff.mp hpoints).1
  have hzero : leBytes 4 0 ++ [] = [0x00, 0x00, 0x00, 0x00] := by decide
  cases c with
  | point p | line ps => cases hruns
  | polygon rings =>
    obtain rfl : rings = [] := hruns
    exact ⟨hzero, by simp [kind]⟩
  | multiPoint ps =>
    obtain rfl : ps = [] := map_eq_nil_iff.mp hruns
    exact ⟨hzero, by simp [kind]⟩
  | multiLine lines =>
    obtain rfl : lines = [] := hruns
    exact ⟨hzero, by simp [kind]⟩

/-- The data of an empty form of T-SQL. -/
structure EmptyForm (d : GeometryData) (kind : UInt8) : Prop where
  geomClass : ¬(d.geomClass ≠ 1 ∧ d.geomClass ≠ 2)
  geomType : d.geomType = 0x04
  geomName : d.geomName = 0
  flag : d.dimensionFlag = 0
  hasData : d.hasNpointsData = false
  length : d.inputData.length = 27
  coords : OccursAt d.inputData 6 (emptyCoord ++ [kind])

namespace EmptyForm

variable {d : GeometryData} {kind : UInt8}

theorem readAt_coords (h : EmptyForm d kind) :
    (readAt d.inputData 6 20 : Checked (List UInt8)) = .ok emptyCoord :=
  h.coords.left.readAt_eq rfl

theorem setDimensionFlag_eq (h : EmptyForm d kind) : setDimensionFlag d = .ok d := by
  have hsame : ({ d with geomType := 0x04, dimensionFlag := 0 } : GeometryData) = d := by
    rw [← h.flag, ← h.geomType]
  have hprops : readProperties d = .ok d := by
    unfold readProperties
    rw [h.geomType]
    show (if 26 ≤ d.inputData.length then _ else _) = _
    rw [if_pos (by rw [h.length]; decide), h.readAt_coords, ok_bind, if_pos rfl, hsame]
    rfl
  refine setDimensionFlag_of_properties h.geomClass hprops (by simp [h.hasData]) ?_
  have hz : d.hasZ = false := by rw [hasZ, h.flag]; rfl
  have hm : d.hasM = false := by rw [hasM, h.flag]; rfl
  rw [CoordinatesInside, if_neg (by simp [h.hasData]), h.geomName, h.length, hz, hm]
  decide

theorem processGeometryData_eq (h : EmptyForm d kind) (hkind : kind ∈ [3, 4, 5])
    (junk : Nat → UInt8) :
    processGeometryData junk d = .ok (d, resultHead d kind ++ [0x00, 0x00, 0x00, 0x00]) := by
  have hempty : emptyType d = .ok kind := by
    unfold emptyType inputLen
    rw [if_pos h.geomType, throwIf_eq (by rw [h.length]; decide), ok_bind,
      h.readAt_coords, ok_bind, if_neg (by simp)]
    exact readByte_of_occurs h.coords.right
  obtain ⟨out, hcreate, rfl⟩ := (createEmptyGeometry_ends (E := fun _ => False)
    (by rw [h.length]; decide) h.flag kind).exists_ok
  have hhandle : handleEmptyGeometryBytea d = createEmptyGeometry d kind := by
    unfold handleEmptyGeometryBytea
    rw [hempty, ok_bind]
    simp only [mem_cons, not_mem_nil, or_false] at hkind
    rcases hkind with rfl | rfl | rfl <;> rfl
  rw [processGeometryData, if_pos h.flag, hhandle, hcreate]
  rfl

end EmptyForm

/-- **The empty form of T-SQL** gives the binary form of a geometry without parts. -/
theorem processBytea_emptyBytes (hwf : g.content.WellFormed) (hpoints : g.content.points = [])
    (hz : g.hasZ = false) (hm : g.hasM = false) :
    processBytea junk (emptyBytes geo isValid g) = .ok (ewkb .iso true g) := by
  obtain ⟨hbytes, hkind⟩ := bytes_of_points_nil hwf hpoints
  have hform : emptyBytes geo isValid g = leBytes 4 g.srid.toNat
      ++ [classByte geo isValid, 0x04] ++ (emptyCoord ++ [UInt8.ofNat g.content.kind]) := by
    rw [emptyBytes, append_assoc]
  have hinit := initializeGeometryData_eq g.srid (classByte geo isValid) 0x04
    (emptyCoord ++ [UInt8.ofNat g.content.kind])
  rw [← hform] at hinit
  generalize hd : mk _ _ _ _ _ _ _ _ _ _ _ _ _ _ = d at hinit
  have hinput : d.inputData = emptyBytes geo isValid g := by rw [← hd]
  have hall : OccursAt (emptyBytes geo isValid g) 0 (emptyBytes geo isValid g) :=
    ⟨[], [], by simp, rfl⟩
  have hempty : EmptyForm d (UInt8.ofNat g.content.kind) := by
    refine ⟨?_, ?_, ?_, ?_, ?_, ?_, ?_⟩
    · rw [← hd]
      exact classByte_cases
    · rw [← hd]
    · rw [← hd]
    · rw [← hd]
    · rw [← hd]
    · rw [hinput, hform, length_append, length_append, length_leBytes]
      rfl
    · rw [hinput]
      rw [hform] at hall ⊢
      have hright := hall.right
      rwa [length_append, length_leBytes] at hright
  have hsrid : slice d.inputData 0 4 = leBytes 4 g.srid.toNat := by
    rw [hinput]
    have heq := hall.left.left.left.slice_eq
    rwa [length_leBytes] at heq
  unfold processBytea
  rw [hinit, ok_bind, hempty.setDimensionFlag_eq, ok_bind,
    hempty.processGeometryData_eq hkind junk, ok_bind]
  have hflag : flagByte g.hasZ g.hasM true = 0x20 := by rw [hz, hm]; rfl
  rw [resultHead, hsrid, hempty.flag, ewkb, leBytes_flagWord g.content.kind_bounds, hflag, hbytes,
    if_pos rfl]
  rfl

end

end Babelfish.Common.Spatial
