import Babelfish.Common.SpatialWrite

/-!
# The form of T-SQL of a geometry

From the binary form of PostGIS, `bytea_from_geometry` and `bytea_from_geography` make the form of
T-SQL of the same geometry, if there is memory for it.

* `clrBytes`: the form of T-SQL.
* `describe`: what PostGIS says about a geometry.
* `fillResult`: what `construct_result_bytea` does with its memory; `fillResult_points` and
  `fillResult_empty` say what it writes.
* `byteaFrom_ends`: the result for a geometry with points.
* `byteaFrom_empty`: the result for a geometry of two dimensions without points.
* `byteaFrom_empty_overrun`: with more dimensions, a geometry without points does not fit.
-/

namespace Babelfish.Common.Spatial

open Lib List Content

/-! ### The form of T-SQL -/

def dimsCode (hasZ hasM : Bool) : Nat :=
  (if hasZ then 1 else 0) + (if hasM then 2 else 0)

def Content.propertiesByte {hasZ hasM : Bool} (isValid : Bool) (c : Content hasZ hasM) : UInt8 :=
  UInt8.ofNat (dimsCode hasZ hasM + match c with
    | point _ => if isValid then 0x0C else 0x08
    | line ps =>
      if ps.length ≤ 2 then (if isValid then 0x14 else 0x10) else (if isValid then 0x04 else 0x00)
    | polygon _ => if isValid then 0x04 else 0x00
    | _ => 0x04)

variable (isGeography isValid : Bool)

def classByte : UInt8 :=
  if !isValid && isGeography then 2 else 1

/-- The form of T-SQL of a geometry with points. -/
def clrBytes (g : Geometry) : List UInt8 :=
  leBytes 4 g.srid.toNat ++ [classByte isGeography isValid, g.content.propertiesByte isValid]
    ++ g.content.data

/-- The form of T-SQL of a geometry without points. -/
def emptyBytes (g : Geometry) : List UInt8 :=
  leBytes 4 g.srid.toNat ++ [classByte isGeography isValid, 0x04] ++ emptyCoord
    ++ [UInt8.ofNat g.content.kind]

theorem length_clrBytes (g : Geometry) :
    (clrBytes isGeography isValid g).length = 6 + g.content.data.length := by
  rw [clrBytes, length_append, length_append, length_leBytes]
  rfl

/-! ### What PostGIS says -/

variable (isValid hasSrid : Bool)

/-- The answers of PostGIS about a geometry. -/
def describe (g : Geometry) : GeoDataInfo :=
  initializeGeomData g.content.points.isEmpty isValid g.content.points.length
    (ewkb .flags hasSrid g)

def flagByte (hasZ hasM hasSrid : Bool) : UInt8 :=
  UInt8.ofNat ((if hasZ then 0x80 else 0) + (if hasM then 0x40 else 0)
    + (if hasSrid then 0x20 else 0))

theorem leBytes_flagWord {kind : Nat} (hkind : 1 ≤ kind ∧ kind ≤ 5) (hasZ hasM hasSrid : Bool) :
    leBytes 4 (flagWord kind hasZ hasM hasSrid) =
      [UInt8.ofNat kind, 0x00, 0x00, flagByte hasZ hasM hasSrid] := by
  obtain ⟨h1, h5⟩ := hkind
  interval_cases kind <;> revert hasZ hasM hasSrid <;> decide

theorem ewkb_eq (hasSrid : Bool) (g : Geometry) :
    ewkb .flags hasSrid g =
      [0x01, UInt8.ofNat g.content.kind, 0x00, 0x00, flagByte g.hasZ g.hasM hasSrid]
        ++ ((if hasSrid then leBytes 4 g.srid.toNat else []) ++ g.content.bytes .flags) := by
  rw [ewkb, leBytes_flagWord g.content.kind_bounds, append_assoc, append_assoc]
  rfl

theorem kind_cases {hasZ hasM : Bool} (c : Content hasZ hasM) :
    UInt8.ofNat c.kind = 1 ∨ UInt8.ofNat c.kind = 2 ∨ UInt8.ofNat c.kind = 3 ∨
      UInt8.ofNat c.kind = 4 ∨ UInt8.ofNat c.kind = 5 := by
  cases c <;> simp [kind]

theorem validateGeomType_describe (g : Geometry) :
    validateGeomType (describe isValid hasSrid g) = true := by
  unfold validateGeomType describe initializeGeomData
  simp only [ewkb_eq]
  rcases kind_cases g.content with hk | hk | hk | hk | hk <;> simp [hk]

def codesOf : Bool → Bool → TypeCodes
  | false, false => xyCodes
  | true, false => xyzCodes
  | false, true => xymCodes
  | true, true => xyzmCodes

theorem codesOf_eq (hasZ hasM : Bool) :
    codesOf hasZ hasM =
      { point := UInt8.ofNat (dimsCode hasZ hasM + 0x0C)
        invalidPoint := UInt8.ofNat (dimsCode hasZ hasM + 0x08)
        lineMp := UInt8.ofNat (dimsCode hasZ hasM + 0x04)
        line2p := UInt8.ofNat (dimsCode hasZ hasM + 0x14)
        invalidLineMp := UInt8.ofNat (dimsCode hasZ hasM + 0x00)
        invalidLine2p := UInt8.ofNat (dimsCode hasZ hasM + 0x10)
        polygon := UInt8.ofNat (dimsCode hasZ hasM + 0x04)
        invalidPolygon := UInt8.ofNat (dimsCode hasZ hasM + 0x00)
        multi := UInt8.ofNat (dimsCode hasZ hasM + 0x04)
        coordSize := stride hasZ hasM } := by
  cases hasZ <;> cases hasM <;> rfl

section
variable {info : GeoDataInfo} {hasZ hasM hasSrid isValid geo : Bool}
variable {content : Content hasZ hasM}

theorem hasZ_of_flagByte (h : info.sridFlag = flagByte hasZ hasM hasSrid) : info.hasZ = hasZ := by
  rw [GeoDataInfo.hasZ, h]
  clear h
  revert hasZ hasM hasSrid
  decide

theorem hasM_of_flagByte (h : info.sridFlag = flagByte hasZ hasM hasSrid) : info.hasM = hasM := by
  rw [GeoDataInfo.hasM, h]
  clear h
  revert hasZ hasM hasSrid
  decide

theorem determineGeomDimensions_eq (h : info.byteData.getD 4 0 = flagByte hasZ hasM hasSrid) :
    determineGeomDimensions info =
      if hasZ = false ∧ hasM = false ∧ info.isEmpty = true then
        some { info with
          sridFlag := flagByte hasZ hasM hasSrid, hasSrid, geomType := 0x04, coordSize := 21 }
      else
        some (setTypeAndSize (codesOf hasZ hasM)
          { info with sridFlag := flagByte hasZ hasM hasSrid, hasSrid }) := by
  unfold determineGeomDimensions
  simp only [h]
  cases hasZ <;> cases hasM <;> cases hasSrid <;> cases hempty : info.isEmpty <;> rfl

theorem setTypeAndSize_eq (hkind : info.postgisGeomType = UInt8.ofNat content.kind)
    (hnpoints : info.npoints = content.points.length)
    (hsmall : content.points.length * stride hasZ hasM < 2 ^ 32) :
    setTypeAndSize (codesOf hasZ hasM) info =
      { info with
        geomType := content.propertiesByte info.isValid
        coordSize := content.points.length * stride hasZ hasM } := by
  have hsize : u32 (stride hasZ hasM * info.npoints) =
      content.points.length * stride hasZ hasM := by
    rw [hnpoints, Nat.mul_comm, u32_eq hsmall]
  unfold setTypeAndSize
  rw [codesOf_eq]
  simp only [hsize]
  rw [hkind]
  cases content with
  | point p =>
    have hone : (point p).points.length * stride hasZ hasM = stride hasZ hasM :=
      Nat.one_mul _
    rw [hone]
    cases hvalid : info.isValid <;> rfl
  | line ps =>
    rw [points_line] at hnpoints
    simp only [kind, propertiesByte, hnpoints, gt_iff_lt, ← Nat.not_le]
    by_cases hshort : ps.length ≤ 2 <;> cases hvalid : info.isValid <;> simp [hshort]
  | polygon rings => cases hvalid : info.isValid <;> rfl
  | multiPoint ps | multiLine lines => rfl

/-! ### Sizes -/

def Content.metadataSize {hasZ hasM : Bool} (c : Content hasZ hasM) : Nat :=
  if c.isFixed then 0 else 8 + 5 * c.runs.length + 9 * c.shapes.length

theorem metadataSize_multiPoint (ps : List (Point hasZ hasM)) :
    (multiPoint ps).metadataSize = 8 + 5 * ps.length + 9 * (ps.length + 1) := by
  show 8 + 5 * (ps.map _).length + 9 * (multiShapes 4 1 ps.length).length = _
  rw [length_map, length_multiShapes]

theorem metadataSize_multiLine (lines : List (List (Point hasZ hasM))) :
    (multiLine lines).metadataSize = 8 + 5 * lines.length + 9 * (lines.length + 1) := by
  show 8 + 5 * lines.length + 9 * (multiShapes 5 2 lines.length).length = _
  rw [length_multiShapes]

/-- No size is too large for 32 bits: the binary form of PostGIS has less than 1 GB. -/
theorem Source.sizes_small (h : Source info geo content) :
    content.points.length * stride hasZ hasM ≤ 2 ^ 30 ∧ content.metadataSize < 2 ^ 31 := by
  have hsmall := h.small
  have hst := stride_bounds hasZ hasM
  have hdata := h.data
  cases content with
  | point p =>
    have hone : (point p).points.length * stride hasZ hasM = stride hasZ hasM :=
      Nat.one_mul _
    exact ⟨by omega, by simp [metadataSize, isFixed]⟩
  | line ps =>
    have hle : _ + (runBytes ps).length ≤ info.byteData.length := hdata.le
    rw [length_runBytes] at hle
    rw [points_line, metadataSize]
    refine ⟨by omega, ?_⟩
    split
    · decide
    · show 8 + 5 * 1 + 9 * 1 < 2 ^ 31
      decide
  | polygon rings =>
    have hle : _ + (leBytes 4 rings.length ++ rings.flatMap runBytes).length ≤
        info.byteData.length := hdata.le
    rw [length_append, length_leBytes, length_lines length_runBytes] at hle
    show rings.flatten.length * _ ≤ _ ∧ 8 + 5 * rings.length + 9 * 1 < _
    omega
  | multiPoint ps =>
    have hle := OccursAt.le hdata
    have hmul := mul_stride ps.length hasZ hasM
    rw [length_parts, Nat.mul_add] at hle
    rw [points_multiPoint, metadataSize_multiPoint]
    omega
  | multiLine lines =>
    have hle : _ + (leBytes 4 lines.length ++ lines.flatMap lineBytes).length ≤
        info.byteData.length := hdata.le
    rw [length_append, length_leBytes, length_lines length_lineBytes] at hle
    rw [metadataSize_multiLine]
    show lines.flatten.length * _ ≤ _ ∧ _
    omega

theorem clrMetadataSize_eq {nfigures nshapes : Nat} (h : 8 + 5 * nfigures + 9 * nshapes < 2 ^ 31) :
    clrMetadataSize nfigures nshapes = 8 + 5 * nfigures + 9 * nshapes := by
  unfold clrMetadataSize
  rw [u32_eq (by omega)]
  omega

theorem Source.metadataSizeOf_eq (h : Source info geo content) (hempty : info.isEmpty = false) :
    metadataSizeOf info geo = .ok content.metadataSize := by
  have hsmall := h.sizes_small.2
  unfold metadataSizeOf calculateClrMetadataSize
  rw [if_neg (by simp [hempty]), h.kind]
  cases content with
  | point p => rfl
  | line ps =>
    have hnpoints : info.npoints = ps.length := by rw [h.npoints, points_line]
    show (if info.npoints ≤ 2 then _ else _) = _
    rw [hnpoints]
    split_ifs with hshort
    · rw [metadataSize, if_pos (by simp [isFixed, hshort])]
    · rw [metadataSize, if_neg (by simp [isFixed]; omega)]
      rfl
  | polygon rings =>
    have hlt : 8 + 5 * rings.length + 9 * 1 < 2 ^ 31 := hsmall
    rw [readU32_of_occurs (OccursAt.left h.data) (by omega), ok_bind, clrMetadataSize_eq hlt]
    rfl
  | multiPoint ps =>
    rw [metadataSize_multiPoint] at hsmall ⊢
    show Except.ok (clrMetadataSize info.npoints (info.npoints + 1)) = _
    rw [h.npoints, points_multiPoint, clrMetadataSize_eq hsmall]
  | multiLine lines =>
    rw [metadataSize_multiLine] at hsmall ⊢
    show (readU32 info.byteData (info.offset geo) >>= _) = _
    rw [readU32_of_occurs (OccursAt.left h.data) (by omega), ok_bind, clrMetadataSize_eq hsmall]
    rfl

theorem Source.totalSize_eq (h : Source info geo content) (hempty : info.isEmpty = false)
    (hcoord : info.coordSize = content.points.length * stride hasZ hasM) :
    totalSize info content.metadataSize = 6 + content.written.length ∧
      4 + (6 + content.written.length) < 2 ^ 32 := by
  obtain ⟨hcoords, hmeta⟩ := h.sizes_small
  have hneeds : needsNpoints info = !content.isFixed := by
    unfold needsNpoints
    rw [h.kind, hempty]
    cases content with
    | line ps =>
      rw [h.npoints, points_line]
      by_cases hshort : ps.length ≤ 2
      · simp [Content.kind, Content.isFixed, hshort]
      · have hlong : 2 < ps.length := by omega
        simp [Content.kind, Content.isFixed, hlong]
    | _ => rfl
  have hdata : content.data.length = content.points.length * stride hasZ hasM
      + (if content.isFixed then 0 else 4) + content.metadataSize := by
    cases hfixed : content.isFixed with
    | true => simp [Content.data, Content.metadataSize, hfixed, length_columns]
    | false =>
      have hmeta : content.metadataSize = 8 + 5 * content.runs.length + 9 * content.shapes.length :=
        if_neg (by simp [hfixed])
      rw [content.length_data hfixed, hmeta]
      show _ = _ + 4 + _
      omega
  unfold totalSize
  rw [hcoord, hneeds, content.length_written, hdata]
  cases content.isFixed <;>
    simp only [Bool.not_true, Bool.not_false, Bool.false_eq_true, if_false, if_true] <;>
    exact ⟨by rw [u32_eq (by omega)]; omega, by omega⟩

/-! ### The result -/

theorem pallocBytea_large (junk : Nat → UInt8) {size : Nat} (hsize : 4 + size < 2 ^ 32)
    (hlarge : ¬4 + size ≤ maxAllocSize) :
    ∃ text, pallocBytea junk size = .error (.raised text) := by
  unfold pallocBytea palloc
  rw [u32_eq hsize, if_neg hlarge]
  exact ⟨_, rfl⟩

/-- What `construct_result_bytea` does once it has the memory for the result. -/
def fillResult (info : GeoDataInfo) (isGeography : Bool) (buf : List UInt8) :
    Checked (List UInt8) := do
  let buf ← setSridData info isGeography buf
  let buf ← setGeomTypeHeader info isGeography buf
  if info.isEmpty then handleEmptyGeometry info buf else handleTypeData info isGeography buf

theorem constructResultBytea_eq :
    constructResultBytea info geo = (do
      let metadataSize ← metadataSizeOf info geo
      let buf ← pallocBytea (fun _ => 0) (totalSize info metadataSize)
      fillResult info geo buf) := rfl

section
variable {E : MemFault String → Prop} {size : Nat} {srid xs : List UInt8}
  (hset : ∀ buf : List UInt8, setSridData info geo buf = writeAt buf 0 srid)
  (hsrid : srid.length = 4)
include hset hsrid

theorem fillResult_writes
    (hdata : Writes E size 6 (fun buf => if info.isEmpty then handleEmptyGeometry info buf
      else handleTypeData info geo buf) xs id) :
    Writes E size 0 (fillResult info geo)
      (srid ++ ([classByte geo info.isValid, info.geomType] ++ xs)) id := by
  unfold fillResult
  simp only [hset]
  refine (Writes.writeAt rfl).seq ((Writes.writeAt (by rw [hsrid])).seq ?_)
  rwa [hsrid]

/-- **A geometry with points**: the header and the data are written. -/
theorem fillResult_points (h : Source info geo content) (hempty : info.isEmpty = false)
    (hcoord : info.coordSize = content.points.length * stride hasZ hasM) (hsize : size < 2 ^ 32) :
    Writes E size 0 (fillResult info geo)
      (srid ++ ([classByte geo info.isValid, info.geomType] ++ content.written)) id := by
  refine fillResult_writes hset hsrid ?_
  simp only [hempty, Bool.false_eq_true, if_false]
  exact handleTypeData_writes hsize h hcoord

/-- **A geometry without points**: the header and the coordinates of the empty form. -/
theorem fillResult_empty (hempty : info.isEmpty = true) :
    Writes E size 0 (fillResult info geo)
      (srid ++ ([classByte geo info.isValid, info.geomType]
        ++ (emptyCoord ++ [info.byteData.getD 1 0]))) id := by
  refine fillResult_writes hset hsrid ?_
  simp only [hempty, if_true]
  exact (Writes.writeAt rfl).seq (.writeAt rfl)

theorem fillResult_overrun {buf : List UInt8} (hempty : info.isEmpty = true)
    (hbuf : 6 ≤ buf.length) (hshort : buf.length < 26) :
    fillResult info geo buf = .error .outOfBounds := by
  have hfirst : 0 + srid.length ≤ buf.length := by omega
  have hlen := length_overwrite hfirst
  have hsecond : 4 + [classByte geo info.isValid, info.geomType].length ≤
      (overwrite buf 0 srid).length := by
    rwa [hlen]
  have hthird : ¬6 + emptyCoord.length ≤ (overwrite (overwrite buf 0 srid) 4
      [classByte geo info.isValid, info.geomType]).length := by
    rw [length_overwrite hsecond, hlen]
    show ¬6 + 20 ≤ _
    omega
  unfold fillResult
  rw [hset, writeAt, if_pos hfirst, ok_bind]
  show (writeAt _ 4 [classByte geo info.isValid, info.geomType] >>= _) = _
  rw [writeAt, if_pos hsecond, ok_bind, if_pos hempty, handleEmptyGeometry, writeAt, if_neg hthird]
  rfl

end

end

/-- What is known about a geometry with points once its dimensions have been found. -/
def formInfo (g : Geometry) : GeoDataInfo :=
  { byteData := ewkb .flags hasSrid g
    sridFlag := flagByte g.hasZ g.hasM hasSrid
    geomType := g.content.propertiesByte isValid
    isEmpty := g.content.points.isEmpty
    isValid
    hasSrid
    postgisGeomType := UInt8.ofNat g.content.kind
    coordSize := g.content.points.length * stride g.hasZ g.hasM
    npoints := g.content.points.length }

theorem Content.bytes_pos {hasZ hasM : Bool} (c : Content hasZ hasM) :
    0 < (c.bytes .flags).length := by
  have hst := stride_bounds hasZ hasM
  cases c with
  | point p =>
    show 0 < p.bytes.length
    rw [p.length_bytes]
    omega
  | _ =>
    refine Nat.lt_of_lt_of_eq ?_ length_append.symm
    rw [length_leBytes]
    omega

section
variable {isValid hasSrid geo : Bool} {g : Geometry} {info : GeoDataInfo}

theorem kind_ewkb (hasSrid : Bool) (g : Geometry) :
    (if (ewkb .flags hasSrid g).length > 5 then (ewkb .flags hasSrid g).getD 1 0 else 0) =
      UInt8.ofNat g.content.kind := by
  have hlong : (ewkb .flags hasSrid g).length > 5 := by
    have hpos := g.content.bytes_pos
    rw [ewkb_eq, length_append, length_append]
    simp only [length_cons, length_nil]
    omega
  rw [if_pos hlong, ewkb_eq]
  rfl

theorem flag_ewkb :
    (ewkb .flags hasSrid g).getD 4 0 = flagByte g.hasZ g.hasM hasSrid := by
  rw [ewkb_eq]
  rfl

/-- The dimensions are found, unless there are two of them and no points.  The points that PostGIS
counts are those of `c`. -/
theorem determineGeomDimensions_form (isValid hasSrid : Bool) {c : Content g.hasZ g.hasM}
    (hkind : c.kind = g.content.kind) (hsmall : c.points.length * stride g.hasZ g.hasM < 2 ^ 32)
    (hpoints : ¬(g.hasZ = false ∧ g.hasM = false ∧ c.points.isEmpty = true)) :
    determineGeomDimensions (initializeGeomData c.points.isEmpty isValid c.points.length
        (ewkb .flags hasSrid g)) =
      some { formInfo isValid hasSrid ⟨g.srid, g.hasZ, g.hasM, c⟩ with
        byteData := ewkb .flags hasSrid g } := by
  have hname := kind_ewkb hasSrid g
  rw [← hkind] at hname
  refine (determineGeomDimensions_eq flag_ewkb).trans
    ((if_neg hpoints).trans (congrArg some ?_))
  refine Eq.trans (setTypeAndSize_eq hname rfl hsmall) ?_
  dsimp only [initializeGeomData]
  rw [hname]
  rfl

theorem ewkb_body (hasSrid : Bool) (g : Geometry) :
    OccursAt (ewkb .flags hasSrid g) 5
      ((if hasSrid then leBytes 4 g.srid.toNat else []) ++ g.content.bytes .flags) := by
  rw [ewkb_eq]
  exact ⟨_, [], by rw [append_nil], rfl⟩

theorem ewkb_data (hflag : info.hasSrid = hasSrid) (hgeo : geo = true → hasSrid = true) :
    OccursAt (ewkb .flags hasSrid g) (info.offset geo) (g.content.bytes .flags) := by
  have hoffset : info.offset geo = if hasSrid then 9 else 5 := by
    rw [GeoDataInfo.offset, hflag]
    cases geo with
    | false => rfl
    | true => rw [hgeo rfl]; rfl
  have hright := (ewkb_body hasSrid g).right
  rw [hoffset]
  cases hasSrid <;> exact hright

theorem source_formInfo (isValid : Bool) (hgeo : geo = true → hasSrid = true)
    (hsmall : (ewkb .flags hasSrid g).length ≤ 2 ^ 30) :
    Source (formInfo isValid hasSrid g) geo g.content := by
  have hdata := ewkb_data (g := g) (show (formInfo isValid hasSrid g).hasSrid = _ from rfl) hgeo
  refine ⟨hasZ_of_flagByte rfl, hasM_of_flagByte rfl, ?_, hsmall, rfl, rfl⟩
  generalize (formInfo isValid hasSrid g).offset geo = offset at hdata ⊢
  obtain ⟨srid, hasZ, hasM, content⟩ := g
  cases content with
  | multiPoint ps =>
    have hparts := OccursAt.right hdata
    rwa [length_leBytes] at hparts
  | _ => exact hdata

theorem setSridData_eq (hbytes : info.byteData = ewkb .flags hasSrid g)
    (hflag : info.hasSrid = hasSrid) (hgeo : geo = true → hasSrid = true)
    (hsrid : hasSrid = false → g.srid = 0) (buf : List UInt8) :
    setSridData info geo buf = writeAt buf 0 (leBytes 4 g.srid.toNat) := by
  unfold setSridData
  rw [hflag, hbytes]
  cases hasSrid with
  | true =>
    have hplace := (ewkb_body true g).left
    rw [if_pos rfl] at hplace
    rw [Bool.or_true, if_pos rfl, hplace.readAt_eq (length_leBytes 4 _), ok_bind]
  | false =>
    have hno : geo = false := by
      cases geo with
      | false => rfl
      | true => exact (hgeo rfl).symm
    rw [hno, hsrid rfl]
    rfl

section
variable (hgeo : geo = true → hasSrid = true) (hsrid : hasSrid = false → g.srid = 0)
  (hsmall : (ewkb .flags hasSrid g).length ≤ 2 ^ 30) (hfinite : ∀ p ∈ g.content.points, p.Finite)
  (hpoints : g.content.points.isEmpty = false)
include hgeo hsmall hfinite hpoints

theorem byteaFrom_points (isValid : Bool) :
    byteaFrom geo (describe isValid hasSrid g) =
        (pallocBytea (fun _ => 0) (clrBytes geo isValid g).length >>=
          fillResult (formInfo isValid hasSrid g) geo) ∧
      4 + (clrBytes geo isValid g).length < 2 ^ 32 := by
  have hsource := source_formInfo isValid hgeo hsmall
  have hsizes := hsource.sizes_small
  obtain ⟨hsize, hlt⟩ := hsource.totalSize_eq hpoints rfl
  have hform := determineGeomDimensions_form (g := g) isValid hasSrid rfl
    (Nat.lt_of_le_of_lt hsizes.1 (by decide)) (by simp [hpoints])
  rw [written_eq_data hfinite, ← length_clrBytes geo isValid] at hsize hlt
  refine ⟨?_, hlt⟩
  unfold byteaFrom
  rw [if_pos (validateGeomType_describe _ _ _), describe, hform]
  show constructResultBytea (formInfo isValid hasSrid g) geo = _
  rw [constructResultBytea_eq, hsource.metadataSizeOf_eq hpoints, ok_bind, hsize]

theorem byteaFrom_large (hlarge : ¬4 + (clrBytes geo isValid g).length ≤ maxAllocSize) :
    ∃ text, byteaFrom geo (describe isValid hasSrid g) = .error (.raised text) := by
  obtain ⟨heq, hlt⟩ := byteaFrom_points hgeo hsmall hfinite hpoints isValid
  obtain ⟨text, htext⟩ := pallocBytea_large (fun _ => 0) hlt hlarge
  refine ⟨text, ?_⟩
  rw [heq, htext]
  rfl

include hsrid

/-- **The form of T-SQL is written**, if there is memory for it. -/
theorem byteaFrom_ends {E : MemFault String → Prop}
    (hE : 4 + (clrBytes geo isValid g).length ≤ maxAllocSize ∨ ∀ t, E (.raised t)) :
    Ends E (byteaFrom geo (describe isValid hasSrid g)) fun out =>
      out = clrBytes geo isValid g := by
  obtain ⟨heq, hlt⟩ := byteaFrom_points hgeo hsmall hfinite hpoints isValid
  have hset := setSridData_eq rfl (show (formInfo isValid hasSrid g).hasSrid = hasSrid from rfl)
    hgeo hsrid
  have hform : clrBytes geo isValid g = leBytes 4 g.srid.toNat
      ++ ([classByte geo isValid, g.content.propertiesByte isValid]
        ++ g.content.written) := by
    rw [written_eq_data hfinite, clrBytes, append_assoc]
  rw [heq]
  refine (pallocBytea_ends hlt hE).bind fun buf hbuf => ?_
  have hwrites : Writes E (clrBytes geo isValid g).length 0
      (fillResult (formInfo isValid hasSrid g) geo) (clrBytes geo isValid g)
      id := by
    rw [hform] at hlt ⊢
    exact fillResult_points hset (length_leBytes 4 _) (source_formInfo isValid hgeo hsmall) hpoints
      rfl (by omega)
  exact Writes.ends (r := id) hwrites rfl hbuf

end

/-! ### Geometries without points -/

/-- What is known about a geometry without points: with two dimensions it has a form of its own, and
with more only the bytes of a point are counted. -/
structure EmptyInfo (isValid hasSrid : Bool) (g : Geometry) (info : GeoDataInfo) : Prop where
  byteData : info.byteData = ewkb .flags hasSrid g
  isEmpty : info.isEmpty = true
  npoints : info.npoints = 0
  valid : info.isValid = isValid
  flag : info.hasSrid = hasSrid
  flat : g.hasZ = false ∧ g.hasM = false → info.coordSize = 21 ∧ info.geomType = 0x04
  dims : ¬(g.hasZ = false ∧ g.hasM = false) →
    info.coordSize = if g.content.kind = 1 then stride g.hasZ g.hasM else 0

theorem determineGeomDimensions_empty (isValid hasSrid : Bool) (g : Geometry) :
    ∃ info, determineGeomDimensions (initializeGeomData true isValid 0 (ewkb .flags hasSrid g)) =
      some info ∧ EmptyInfo isValid hasSrid g info := by
  have hname : (initializeGeomData true isValid 0 (ewkb .flags hasSrid g)).postgisGeomType =
      UInt8.ofNat g.content.kind := kind_ewkb hasSrid g
  have hflag : (initializeGeomData true isValid 0 (ewkb .flags hasSrid g)).byteData.getD 4 0 =
      flagByte g.hasZ g.hasM hasSrid := flag_ewkb
  have heq := determineGeomDimensions_eq hflag
  by_cases hdims : g.hasZ = false ∧ g.hasM = false
  · refine ⟨_, heq.trans (if_pos ⟨hdims.1, hdims.2, rfl⟩), ?_⟩
    exact ⟨rfl, rfl, rfl, rfl, rfl, fun _ => ⟨rfl, rfl⟩, fun h => absurd hdims h⟩
  · refine ⟨_, heq.trans (if_neg fun h => hdims ⟨h.1, h.2.1⟩), ?_⟩
    rw [codesOf_eq, setTypeAndSize]
    rw [hname]
    obtain ⟨srid, hasZ, hasM, content⟩ := g
    cases content with
    | _ => exact ⟨rfl, rfl, rfl, rfl, rfl, fun h => absurd h hdims, fun _ => rfl⟩

namespace EmptyInfo

variable {info : GeoDataInfo} (h : EmptyInfo isValid hasSrid g info)
include h

theorem metadataSizeOf_eq : metadataSizeOf info geo = .ok 0 :=
  if_pos h.isEmpty

theorem totalSize_eq : totalSize info 0 = 6 + info.coordSize := by
  have hst := stride_bounds g.hasZ g.hasM
  have hneeds : needsNpoints info = false := by
    unfold needsNpoints
    rw [h.isEmpty, h.npoints]
    simp
  have hcoord : info.coordSize ≤ 32 := by
    by_cases hdims : g.hasZ = false ∧ g.hasM = false
    · rw [(h.flat hdims).1]
      omega
    · rw [h.dims hdims]
      split <;> omega
  unfold totalSize
  rw [hneeds, u32_eq (by simp; omega)]
  rfl

theorem byteaFrom_eq {x : GeoDataInfo} (hx : determineGeomDimensions x = some info)
    (hvalid : validateGeomType x = true) :
    byteaFrom geo x = pallocBytea (fun _ => 0) (6 + info.coordSize) >>=
      fillResult info geo := by
  unfold byteaFrom
  rw [if_pos hvalid, hx]
  show constructResultBytea info geo = _
  rw [constructResultBytea_eq, h.metadataSizeOf_eq, ok_bind, h.totalSize_eq]

end EmptyInfo

theorem describe_empty (hpoints : g.content.points = []) :
    describe isValid hasSrid g = initializeGeomData true isValid 0 (ewkb .flags hasSrid g) := by
  rw [describe, hpoints]
  rfl

section
variable (hgeo : geo = true → hasSrid = true) (hsrid : hasSrid = false → g.srid = 0)
  (hpoints : g.content.points = [])
include hgeo hsrid hpoints

theorem byteaFrom_empty (hz : g.hasZ = false) (hm : g.hasM = false) :
    byteaFrom geo (describe isValid hasSrid g)
      = .ok (emptyBytes geo isValid g) := by
  obtain ⟨info, hinfo, h⟩ := determineGeomDimensions_empty isValid hasSrid g
  obtain ⟨hcoord, htype⟩ := h.flat ⟨hz, hm⟩
  have hvalid := validateGeomType_describe isValid hasSrid g
  have hkind : info.byteData.getD 1 0 = UInt8.ofNat g.content.kind := by
    rw [h.byteData, ewkb_eq]
    rfl
  rw [describe_empty hpoints] at hvalid ⊢
  rw [h.byteaFrom_eq hinfo hvalid, hcoord]
  have hends : Ends (fun _ => False) (pallocBytea (fun _ => 0) 27 >>= fillResult info geo)
      fun out => out = emptyBytes geo isValid g := by
    refine (pallocBytea_ends (by decide) (.inl (by decide))).bind fun buf hbuf => ?_
    have hwrites : Writes (fun _ => False) 27 0 (fillResult info geo) _ id :=
      fillResult_empty (setSridData_eq h.byteData h.flag hgeo hsrid) (length_leBytes 4 _) h.isEmpty
    rw [hkind, htype, h.valid, ← append_assoc, ← append_assoc] at hwrites
    refine Writes.ends (r := id) hwrites ?_ hbuf
    rfl
  obtain ⟨out, hout, rfl⟩ := hends.exists_ok
  exact hout

/-- With more dimensions only the header is counted, and the coordinates of the empty form are
written behind the end of the result. -/
theorem byteaFrom_empty_overrun (hdims : ¬(g.hasZ = false ∧ g.hasM = false)) :
    byteaFrom geo (describe isValid hasSrid g) = .error .outOfBounds := by
  obtain ⟨info, hinfo, h⟩ := determineGeomDimensions_empty isValid hasSrid g
  have hcoord : info.coordSize = 0 := by
    rw [h.dims hdims, if_neg]
    intro hkind
    cases hc : g.content with
    | point p => rw [hc] at hpoints; cases hpoints
    | _ => rw [hc] at hkind; cases hkind
  have hvalid := validateGeomType_describe isValid hasSrid g
  rw [describe_empty hpoints] at hvalid ⊢
  rw [h.byteaFrom_eq hinfo hvalid, hcoord]
  obtain ⟨buf, hbuf, hlen⟩ : ∃ buf, pallocBytea (fun _ => 0) 6 = .ok buf ∧ buf.length = 6 :=
    (pallocBytea_ends (by decide) (.inl (by decide))).exists_ok
  rw [hbuf, ok_bind]
  exact fillResult_overrun (setSridData_eq h.byteData h.flag hgeo hsrid) (length_leBytes 4 _)
    h.isEmpty (by omega) (by omega)

end

end

end Babelfish.Common.Spatial
