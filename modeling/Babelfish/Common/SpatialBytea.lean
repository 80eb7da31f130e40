import Babelfish.Common.Spatial

/-!
# From the binary form of PostGIS to that of T-SQL

`bytea_from_geometry` and `bytea_from_geography`.  What PostGIS says about the geometry (whether it
is empty, whether it is valid, its number of points and its binary form) is given; the coordinates
of each point, which stand together in that form, are written as all X and Y, then all Z, then all
M, and the figures and shapes follow.

As in the other direction positions stand for pointers, and every access is checked.  Numbers of
type `uint32_t` are taken modulo `2 ^ 32`; the counts that the source reads as `int32` are at most
as large as the data that PostGIS has, and no sum of them leaves the range of `int`.

* `determineGeomDimensions`: the properties byte and the size of the coordinates.
* `constructResultBytea`: the result.
* `byteaFromGeometry`, `byteaFromGeography`.
-/

namespace Babelfish.Common.Spatial

open Lib

/-! ### What is known about the geometry -/

structure GeoDataInfo where
  byteData : List UInt8
  sridFlag : UInt8
  geomType : UInt8
  isEmpty : Bool
  isValid : Bool
  hasSrid : Bool
  postgisGeomType : UInt8
  coordSize : Nat
  npoints : Nat
  deriving DecidableEq, Repr

/-- From the answers of `st_isempty`, `st_isvalid`, `st_npoints` and `lwgeom_to_bytea`. -/
def initializeGeomData (isEmpty isValid : Bool) (npoints : Nat) (byteData : List UInt8) :
    GeoDataInfo :=
  { byteData, sridFlag := 0, geomType := 0, isEmpty, isValid, hasSrid := false,
    postgisGeomType := if byteData.length > 5 then byteData.getD 1 0 else 0, coordSize := 0,
    npoints }

variable (info : GeoDataInfo)

def validateGeomType : Bool :=
  if info.byteData.length < 5 then false
  else
    let geomType := info.byteData.getD 1 0
    (geomType == 1 || geomType == 2 || geomType == 3 || geomType == 4 || geomType == 5) &&
      info.byteData.getD 2 0 == 0x00 && info.byteData.getD 3 0 == 0x00

/-- The properties bytes of one choice of dimensions, and the bytes of a point. -/
structure TypeCodes where
  point : UInt8
  invalidPoint : UInt8
  lineMp : UInt8
  line2p : UInt8
  invalidLineMp : UInt8
  invalidLine2p : UInt8
  polygon : UInt8
  invalidPolygon : UInt8
  multi : UInt8
  coordSize : Nat

def xyCodes : TypeCodes :=
  { point := 0x0C, invalidPoint := 0x08, lineMp := 0x04, line2p := 0x14, invalidLineMp := 0x00,
    invalidLine2p := 0x10, polygon := 0x04, invalidPolygon := 0x00, multi := 0x04,
    coordSize := 16 }

def xyzCodes : TypeCodes :=
  { point := 0x0D, invalidPoint := 0x09, lineMp := 0x05, line2p := 0x15, invalidLineMp := 0x01,
    invalidLine2p := 0x11, polygon := 0x05, invalidPolygon := 0x01, multi := 0x05,
    coordSize := 24 }

def xymCodes : TypeCodes :=
  { point := 0x0E, invalidPoint := 0x0A, lineMp := 0x06, line2p := 0x16, invalidLineMp := 0x02,
    invalidLine2p := 0x12, polygon := 0x06, invalidPolygon := 0x02, multi := 0x06,
    coordSize := 24 }

def xyzmCodes : TypeCodes :=
  { point := 0x0F, invalidPoint := 0x0B, lineMp := 0x07, line2p := 0x17, invalidLineMp := 0x03,
    invalidLine2p := 0x13, polygon := 0x07, invalidPolygon := 0x03, multi := 0x07,
    coordSize := 32 }

/-- The switch over the kind, which is the same for all dimensions but for the codes. -/
def setTypeAndSize (codes : TypeCodes) (info : GeoDataInfo) : GeoDataInfo :=
  let coordSize := u32 (codes.coordSize * info.npoints)
  match info.postgisGeomType with
  | 1 =>
    { info with
      geomType := if info.isValid then codes.point else codes.invalidPoint
      coordSize := codes.coordSize }
  | 2 =>
    { info with
      geomType :=
        if info.isValid then (if info.npoints > 2 then codes.lineMp else codes.line2p)
        else (if info.npoints > 2 then codes.invalidLineMp else codes.invalidLine2p)
      coordSize }
  | 3 =>
    { info with
      geomType := if info.isValid then codes.polygon else codes.invalidPolygon
      coordSize }
  | 4 | 5 => { info with geomType := codes.multi, coordSize }
  | _ => info

/-- Only the branch of two dimensions asks whether the geometry is empty. -/
def determineGeomDimensions : Option GeoDataInfo :=
  let sridFlag := info.byteData.getD 4 0
  let info := { info with sridFlag, hasSrid := sridFlag &&& 0x20 != 0 }
  match sridFlag &&& 0xC0 with
  | 0x00 =>
    if info.isEmpty then some { info with geomType := 0x04, coordSize := 21 }
    else some (setTypeAndSize xyCodes info)
  | 0x80 => some (setTypeAndSize xyzCodes info)
  | 0xC0 => some (setTypeAndSize xyzmCodes info)
  | 0x40 => some (setTypeAndSize xymCodes info)
  | _ => none

namespace GeoDataInfo

variable (info : GeoDataInfo)

/-- `POSTGIS_DIM_XYZ` or `POSTGIS_DIM_XYZM` -/
def hasZ : Bool :=
  info.sridFlag &&& 0xC0 == 0x80 || info.sridFlag &&& 0xC0 == 0xC0

/-- `POSTGIS_DIM_XYM` or `POSTGIS_DIM_XYZM` -/
def hasM : Bool :=
  info.sridFlag &&& 0xC0 == 0x40 || info.sridFlag &&& 0xC0 == 0xC0

def stride : Nat :=
  Spatial.stride info.hasZ info.hasM

/-- Where the data begins: `OFFSET_WITH_SRID` or `OFFSET_WITHOUT_SRID`. -/
def offset (isGeography : Bool) : Nat :=
  if isGeography || info.hasSrid then 9 else 5

end GeoDataInfo

/-! ### Coordinates -/

def specificNan : List UInt8 :=
  [0x00, 0x00, 0x00, 0x00, 0x00, 0x00, 0xf8, 0xff]

/-- `isnan(x)` -/
def isNan (bits : Nat) : Bool :=
  notFinite bits && bits % 2 ^ 52 != 0

variable (bytes : List UInt8)

def copyCoordWithNanCheck (src dst : Nat) (buf : List UInt8) :
    Checked (List UInt8) := do
  let coord ← readAt bytes src 8
  writeAt buf dst (if isNan (leNat coord) then specificNan else coord)

variable (dst src npoints stride : Nat)

def copyXyCoords (buf : List UInt8) :
    Checked (List UInt8) :=
  forRange (fun i buf => do
    let xy ← readAt bytes (src + u32 (i * stride)) 16
    writeAt buf (dst + i * 16) xy) 0 npoints buf

def copyZCoords (buf : List UInt8) :
    Checked (List UInt8) :=
  forRange (fun i => copyCoordWithNanCheck bytes (src + u32 (i * stride) + 16)
    (dst + npoints * 16 + i * 8)) 0 npoints buf

def copyMCoords (hasZ : Bool) (buf : List UInt8) : Checked (List UInt8) :=
  forRange (fun i =>
    copyCoordWithNanCheck bytes (src + u32 (i * stride) + 16 + (if hasZ then 8 else 0))
      (dst + npoints * 16 + (if hasZ then npoints * 8 else 0) + i * 8)) 0 npoints buf

/-! ### The tables of figures and shapes -/

def writeFigureEntry (dst : Nat) (figureAttribute : UInt8) (pointOffset : Nat)
    (buf : List UInt8) : Checked (List UInt8) := do
  let buf ← writeAt buf dst [figureAttribute]
  writeAt buf (dst + 1) (leBytes 4 pointOffset)

def writeShapeEntry (dst : Nat) (parentIndex : Int) (figureOffset : Nat) (type : UInt8)
    (buf : List UInt8) : Checked (List UInt8) := do
  let buf ← writeAt buf dst (leBytes 4 (ofInt32 parentIndex))
  let buf ← writeAt buf (dst + 4) (leBytes 4 figureOffset)
  writeAt buf (dst + 8) [type]

def writeLinestringClrMetadata (dst : Nat) (buf : List UInt8) : Checked (List UInt8) := do
  let buf ← writeAt buf dst (leBytes 4 1)
  let buf ← writeFigureEntry (dst + 4) 0x01 0 buf
  let buf ← writeAt buf (dst + 9) (leBytes 4 1)
  writeShapeEntry (dst + 13) (-1) 0 2 buf

/-- The state of a loop that writes figures. -/
structure FigurePass where
  src : Nat
  pos : Nat
  points : Nat
  buf : List UInt8

/-- One figure, with the number of points before it.  The number of its own points is at `countAt`
from `src` on, and `next` goes on behind them. -/
def writeRunFigure (dst countAt : Nat) (next : Nat → Nat → Nat)
    (figureAttribute : Nat → UInt8) (i : Nat) (s : FigurePass) : Checked FigurePass := do
  let buf ← writeFigureEntry (dst + s.pos) (figureAttribute i) s.points s.buf
  let n ← readU32 bytes (s.src + countAt)
  return ⟨next s.src n, u32 (s.pos + 5), u32 (s.points + n), buf⟩

variable (isGeography : Bool)

def writePolygonClrMetadata (dst : Nat) (buf : List UInt8) : Checked (List UInt8) := do
  let srcStart := info.offset isGeography
  let numRings ← readU32 info.byteData srcStart
  let buf ← writeAt buf dst (leBytes 4 numRings)
  let s ← forRange (writeRunFigure info.byteData dst 0 (fun src n => src + (4 + n * info.stride))
    fun i => if i = 0 then 0x02 else 0x00) 0 numRings ⟨srcStart + 4, 4, 0, buf⟩
  let buf ← writeAt s.buf (dst + s.pos) (leBytes 4 1)
  writeShapeEntry (dst + u32 (s.pos + 4)) (-1) 0 3 buf

/-- The shapes of the parts; the state is the offset in the tables and the result. -/
def writeChildShape (dst : Nat) (type : UInt8) (i : Nat) (s : Nat × List UInt8) :
    Checked (Nat × List UInt8) := do
  let buf ← writeShapeEntry (dst + s.1) 0 i type s.2
  return (u32 (s.1 + 9), buf)

/-- The first shape and those of the parts, which both kinds of several parts have. -/
def writeMultiShapes (dst pos count : Nat) (rootType childType : UInt8) (buf : List UInt8) :
    Checked (List UInt8) := do
  let buf ← writeAt buf (dst + pos) (leBytes 4 (count + 1))
  let buf ← writeShapeEntry (dst + u32 (pos + 4)) (-1) 0 rootType buf
  let s ← forRange (writeChildShape dst childType) 0 count (u32 (u32 (pos + 4) + 9), buf)
  return s.2

/-- The figure of a point; the state is the offset in the tables and the result. -/
def writePointFigure (dst i : Nat) (s : Nat × List UInt8) : Checked (Nat × List UInt8) := do
  let buf ← writeFigureEntry (dst + s.1) 0x01 i s.2
  return (u32 (s.1 + 5), buf)

def writeMultipointClrMetadata (npoints dst : Nat) (buf : List UInt8) : Checked (List UInt8) := do
  let buf ← writeAt buf dst (leBytes 4 npoints)
  let s ← forRange (writePointFigure dst) 0 npoints (4, buf)
  writeMultiShapes dst s.1 npoints 4 1 s.2

def writeMultilinestringClrMetadata (dst : Nat) (buf : List UInt8) : Checked (List UInt8) := do
  let srcOffset := info.offset isGeography + 4
  let numLinestrings ← readU32 info.byteData (info.offset isGeography)
  let buf ← writeAt buf dst (leBytes 4 numLinestrings)
  let s ← forRange (writeRunFigure info.byteData dst 5
    (fun src n => u32 (src + (9 + n * info.stride))) fun _ => 0x01) 0 numLinestrings
    ⟨srcOffset, 4, 0, buf⟩
  writeMultiShapes dst s.pos numLinestrings 5 2 s.buf

/-- The lines and polygons; the other kinds have no tables or write them themselves. -/
def writeClrMetadata (dst : Nat) (buf : List UInt8) :
    Checked (List UInt8) :=
  match info.postgisGeomType with
  | 2 => if info.npoints > 2 then writeLinestringClrMetadata dst buf else .ok buf
  | 3 => writePolygonClrMetadata info isGeography dst buf
  | _ => .ok buf

/-- The bytes of tables with so many figures and shapes. -/
def clrMetadataSize (nfigures nshapes : Nat) : Nat :=
  u32 (4 + nfigures * 5 + 4 + nshapes * 9)

def calculateClrMetadataSize : Checked Nat :=
  match info.postgisGeomType with
  | 1 => .ok 0
  | 2 => if info.npoints ≤ 2 then .ok 0 else .ok (clrMetadataSize 1 1)
  | 3 => do
    let nfigures ← readU32 info.byteData (info.offset isGeography)
    return clrMetadataSize nfigures 1
  | 4 => .ok (clrMetadataSize info.npoints (info.npoints + 1))
  | 5 => do
    let nfigures ← readU32 info.byteData (info.offset isGeography)
    return clrMetadataSize nfigures (nfigures + 1)
  | _ => .ok 0

/-! ### The kinds of geometries -/

def handleLinestringTypeData (buf : List UInt8) :
    Checked (List UInt8) := do
  let src := info.offset isGeography + 4
  let dst := if info.npoints > 2 then 10 else 6
  let buf ← copyXyCoords info.byteData dst src info.npoints info.stride buf
  let buf ←
    (if info.hasZ then copyZCoords info.byteData dst src info.npoints info.stride buf else .ok buf)
  let buf ←
    (if info.hasM then copyMCoords info.byteData dst src info.npoints info.stride info.hasZ buf
    else .ok buf)
  if info.npoints > 2 then writeClrMetadata info isGeography (dst + info.coordSize) buf
  else return buf

/-- The state of a loop that copies coordinates: where it reads, and the points or bytes that it
has copied. -/
structure CopyPass where
  src : Nat
  done : Nat
  buf : List UInt8

/-- One ring, whose points `copy` copies. -/
def copyRing (stride : Nat)
    (copy : Nat → Nat → Nat → List UInt8 → Checked (List UInt8)) (_i : Nat) (s : CopyPass) :
    Checked CopyPass := do
  let n ← readU32 bytes s.src
  let buf ← copy (s.src + 4) s.done n s.buf
  return ⟨s.src + 4 + n * stride, s.done + n, buf⟩

def copyRingsXy (src dst numRings : Nat) (buf : List UInt8) :
    Checked CopyPass :=
  forRange (copyRing info.byteData info.stride fun src done n =>
    copyXyCoords info.byteData (dst + done * 16) src n info.stride) 0 numRings ⟨src, 0, buf⟩

/-- The second pass: Z.  What `copy_z_coords` adds to the place is taken away before. -/
def copyRingsZ (src dst numRings total : Nat) (buf : List UInt8) :
    Checked (List UInt8) :=
  if info.hasZ then do
    let s ← forRange (copyRing info.byteData info.stride fun src done n =>
      copyZCoords info.byteData (dst + total * 16 - n * 16 + done * 8) src n info.stride)
        0 numRings ⟨src, 0, buf⟩
    return s.buf
  else .ok buf

def copyRingsM (src dst numRings total : Nat) (buf : List UInt8) :
    Checked (List UInt8) :=
  if info.hasM then do
    let s ← forRange (copyRing info.byteData info.stride fun src done n =>
      copyMCoords info.byteData
        (dst + total * 16 + (if info.hasZ then total * 8 else 0) - n * 16
          - (if info.hasZ then n * 8 else 0) + done * 8) src n info.stride info.hasZ)
        0 numRings ⟨src, 0, buf⟩
    return s.buf
  else .ok buf

def handlePolygonTypeData (buf : List UInt8) :
    Checked (List UInt8) := do
  let srcStart := info.offset isGeography
  let dst := 10
  let numRings ← readU32 info.byteData srcStart
  let s ← copyRingsXy info (srcStart + 4) dst numRings buf
  let buf ← copyRingsZ info (srcStart + 4) dst numRings s.done s.buf
  let buf ← copyRingsM info (srcStart + 4) dst numRings s.done buf
  writeClrMetadata info isGeography
    (dst + s.done * 16 + (if info.hasZ then s.done * 8 else 0)
      + (if info.hasM then s.done * 8 else 0)) buf

/-- X and Y of one point, which are at `pos` from `src` on; the next point is `step` bytes on. -/
def copyPointXy (dst step pos : Nat) (_i : Nat) (s : CopyPass) :
    Checked CopyPass := do
  let xy ← readAt bytes (s.src + pos) 16
  let buf ← writeAt s.buf (dst + s.done) xy
  return ⟨u32 (s.src + step), u32 (s.done + 16), buf⟩

/-- Z or M of one point. -/
def copyPointCoord (dst step pos : Nat) (_i : Nat) (s : CopyPass) :
    Checked CopyPass := do
  let buf ← copyCoordWithNanCheck bytes (s.src + pos) (dst + s.done) s.buf
  return ⟨u32 (s.src + step), u32 (s.done + 8), buf⟩

/-- A pass over all points, from the beginning of the source on. -/
def copyPointsIf (present : Bool) (body : Nat → CopyPass → Checked CopyPass) (src npoints : Nat)
    (s : CopyPass) : Checked CopyPass :=
  if present then forRange body 0 npoints { s with src } else .ok s

def handleMultipointTypeData (buf : List UInt8) :
    Checked (List UInt8) := do
  let src := info.offset isGeography + 4
  let size := 5 + info.stride
  let dst := 10
  let s ← forRange (copyPointXy info.byteData dst size 5) 0 info.npoints ⟨src, 0, buf⟩
  let s ← copyPointsIf info.hasZ (copyPointCoord info.byteData dst size (5 + 16)) src info.npoints s
  let s ← copyPointsIf info.hasM
    (copyPointCoord info.byteData dst size (5 + 16 + (if info.hasZ then 8 else 0))) src info.npoints
    s
  writeMultipointClrMetadata info.npoints (dst + s.done) s.buf

/-- One line of several, whose points `body` copies. -/
def copyLine (body : Nat → CopyPass → Checked CopyPass) (_i : Nat)
    (s : CopyPass) : Checked CopyPass := do
  let n ← readU32 bytes (s.src + 5)
  forRange body 0 n { s with src := u32 (s.src + 9) }

/-- A pass over all lines, from the beginning of the source on; it writes from `offset` on. -/
def copyLinesIf (present : Bool) (bytes : List UInt8) (body : Nat → CopyPass → Checked CopyPass)
    (src offset numLinestrings : Nat) (buf : List UInt8) : Checked (List UInt8) :=
  if present then do
    let s ← forRange (copyLine bytes body) 0 numLinestrings ⟨src, offset, buf⟩
    return s.buf
  else .ok buf

def handleMultilinestringTypeData (buf : List UInt8) :
    Checked (List UInt8) := do
  let src := info.offset isGeography + 4
  let dst := 10
  let total := info.npoints
  let numLinestrings ← readU32 info.byteData (info.offset isGeography)
  let buf ← copyLinesIf true info.byteData (copyPointXy info.byteData dst info.stride 0) src 0
    numLinestrings buf
  let buf ← copyLinesIf info.hasZ info.byteData (copyPointCoord info.byteData dst info.stride 16)
    src (total * 16) numLinestrings buf
  let buf ← copyLinesIf info.hasM info.byteData
    (copyPointCoord info.byteData dst info.stride (16 + (if info.hasZ then 8 else 0))) src
    (total * 16 + (if info.hasZ then total * 8 else 0)) numLinestrings buf
  writeMultilinestringClrMetadata info isGeography
    (dst + total * 16 + (if info.hasZ then total * 8 else 0)
      + (if info.hasM then total * 8 else 0)) buf

/-! ### The result -/

def setSridData (buf : List UInt8) :
    Checked (List UInt8) :=
  if isGeography || info.hasSrid then do
    let srid ← readAt info.byteData 5 4
    writeAt buf 0 srid
  else writeAt buf 0 [0, 0, 0, 0]

def setGeomTypeHeader (buf : List UInt8) :
    Checked (List UInt8) :=
  writeAt buf 4 [if !info.isValid && isGeography then 2 else 1, info.geomType]

def handleEmptyGeometry (buf : List UInt8) : Checked (List UInt8) := do
  let buf ← writeAt buf 6 emptyCoord
  writeAt buf 26 [info.byteData.getD 1 0]

def needsNpoints : Bool :=
  (info.postgisGeomType == 2 && decide (info.npoints > 2)) ||
    ((info.postgisGeomType == 3 || info.postgisGeomType == 4 || info.postgisGeomType == 5) &&
      !info.isEmpty)

/-- The size of the result, from that of the tables. -/
def totalSize (metadataSize : Nat) : Nat :=
  u32 (6 + info.coordSize + (if needsNpoints info then 4 else 0) + metadataSize)

def metadataSizeOf : Checked Nat :=
  if info.isEmpty then .ok 0 else calculateClrMetadataSize info isGeography

/-- The data behind the header. -/
def handleTypeData (buf : List UInt8) :
    Checked (List UInt8) :=
  match info.postgisGeomType with
  | 1 => do
    let coords ← readAt info.byteData (info.offset isGeography) info.coordSize
    writeAt buf 6 coords
  | 2 => do
    let buf ← (if info.npoints > 2 then writeAt buf 6 (leBytes 4 info.npoints) else .ok buf)
    handleLinestringTypeData info isGeography buf
  | 3 => do
    let buf ← writeAt buf 6 (leBytes 4 info.npoints)
    handlePolygonTypeData info isGeography buf
  | 4 => do
    let buf ← writeAt buf 6 (leBytes 4 info.npoints)
    handleMultipointTypeData info isGeography buf
  | 5 => do
    let buf ← writeAt buf 6 (leBytes 4 info.npoints)
    handleMultilinestringTypeData info isGeography buf
  | _ => .ok buf

def constructResultBytea : Checked (List UInt8) := do
  let metadataSize ← metadataSizeOf info isGeography
  let buf ← pallocBytea (fun _ => 0) (totalSize info metadataSize)
  let buf ← setSridData info isGeography buf
  let buf ← setGeomTypeHeader info isGeography buf
  if info.isEmpty then handleEmptyGeometry info buf else handleTypeData info isGeography buf

/-- A kind or dimensions that are not known leave the form of PostGIS as it is. -/
def byteaFrom (info : GeoDataInfo) : Checked (List UInt8) :=
  if validateGeomType info then
    match determineGeomDimensions info with
    | some info => constructResultBytea info isGeography
    | none => .ok info.byteData
  else .ok info.byteData

def byteaFromGeometry : GeoDataInfo → Checked (List UInt8) :=
  byteaFrom false

def byteaFromGeography : GeoDataInfo → Checked (List UInt8) :=
  byteaFrom true

end Babelfish.Common.Spatial
