import Babelfish.Lib.CheckedBytes

/-!
# From the binary form of T-SQL to that of PostGIS

`geometry_from_bytea` and `geography_from_bytea`, up to the call of PostGIS.  The binary form has
the SRID, two bytes that say what is in it, and then either the coordinates of a point or of a line
of two points, or the number of points, the coordinates of all points (first all X and Y, then all
Z, then all M), the table of figures and the table of shapes.  In the result the coordinates of each
point stand together, and the figures and shapes are where their points are.

Pointers are positions in the input and in the result, and every access is checked.  Numbers of type
`uint32_t` are taken modulo `2 ^ 32` after each operation.  `junk` is what fresh memory has in it.

* `setDimensionFlag`: what kind of data it is, and that the coordinates are inside the input.
* `parseFiguresAndShapes`: the tables.
* `handleNonEmptyGeometryBytea`, `handleMultiToPostgis`, `handleEmptyGeometryBytea`: the result.
* `geometryFromBytea`, `geographyFromBytea`.
-/

namespace Babelfish.Common.Spatial

open Lib

abbrev Checked (α : Type) := Except (MemFault String) α

def raise {α : Type} (text : String) : Checked α :=
  .error (.raised text)

def throwVarbinaryConversionError {α : Type} : Checked α :=
  raise "Error converting data type varbinary."

/-- `if (c) THROW_VARBINARY_CONVERSION_ERROR();` -/
def throwIf (c : Prop) [Decidable c] : Checked Unit :=
  if c then throwVarbinaryConversionError else .ok ()

/-! ### Numbers -/

/-- A result of type `uint32_t`. -/
def u32 (n : Nat) : Nat :=
  n % 2 ^ 32

/-- A difference of type `uint32_t`. -/
def sub32 (a b : Nat) : Nat :=
  (a + 2 ^ 32 - b) % 2 ^ 32

def toInt32 (n : Nat) : Int :=
  if n < 2 ^ 31 then n else (n : Int) - 2 ^ 32

def ofInt32 (i : Int) : Nat :=
  (i % 2 ^ 32).toNat

def readByte (bs : List UInt8) (pos : Nat) : Checked UInt8 := do
  let xs ← readAt bs pos 1
  return xs.headD 0

def readU32 (bs : List UInt8) (pos : Nat) : Checked Nat := do
  let xs ← readAt bs pos 4
  return leNat xs

def maxAllocSize : Nat :=
  2 ^ 30 - 1

variable (junk : Nat → UInt8)

/-- `palloc`: a request above the limit is an error. -/
def palloc (size : Nat) : Checked (List UInt8) :=
  if size ≤ maxAllocSize then .ok ((List.range size).map junk)
  else raise s!"invalid memory alloc request size {size}"

/-- The data of a `bytea` of `size` bytes, behind its header of four bytes. -/
def pallocBytea (size : Nat) : Checked (List UInt8) := do
  let block ← palloc junk (u32 (4 + size))
  return block.drop 4

/-! ### What is known about the input -/

structure Figure where
  figureAttribute : UInt8
  pointOffset : Nat
  deriving DecidableEq, Repr

structure Shape where
  parentIndex : Int
  figureOffset : Nat
  type : UInt8
  deriving DecidableEq, Repr

structure GeometryData where
  inputData : List UInt8
  srid : Int
  npoints : Int
  geomClass : UInt8
  geomType : UInt8
  geomName : Nat
  dimensionFlag : Nat
  hasInvalidCoords : Bool
  hasNpointsData : Bool
  nfigures : Nat
  nshapes : Nat
  figures : List Figure
  shapes : List Shape
  metadataSize : Nat
  deriving DecidableEq, Repr

namespace GeometryData

def inputLen (g : GeometryData) : Nat :=
  g.inputData.length

/-- `DIM_FLAG_3D` or `DIM_FLAG_3DM` -/
def hasZ (g : GeometryData) : Bool :=
  g.dimensionFlag == 2 || g.dimensionFlag == 4

/-- `DIM_FLAG_2DM` or `DIM_FLAG_3DM` -/
def hasM (g : GeometryData) : Bool :=
  g.dimensionFlag == 3 || g.dimensionFlag == 4

end GeometryData

/-- The bytes of the coordinates of a point. -/
def stride (hasZ hasM : Bool) : Nat :=
  16 + (if hasZ then 8 else 0) + (if hasM then 8 else 0)

variable (input : List UInt8)

def validateInputLength (typeName : String) : Checked Unit :=
  if input.length < 22 then raise s!"Invalid {typeName}" else .ok ()

def initializeGeometryData : Checked GeometryData := do
  let srid ← readU32 input 0
  let geomClass ← readByte input 4
  let geomType ← readByte input 5
  return {
    inputData := input, srid := toInt32 srid, npoints := 0, geomClass, geomType, geomName := 0,
    dimensionFlag := 0, hasInvalidCoords := false, hasNpointsData := false, nfigures := 0,
    nshapes := 0, figures := [], shapes := [], metadataSize := 0 }

def emptyCoord : List UInt8 :=
  [0x00, 0x00, 0x00, 0x00, 0x00, 0x00, 0x00, 0x00, 0x01, 0x00, 0x00, 0x00, 0xff, 0xff, 0xff, 0xff,
    0xff, 0xff, 0xff, 0xff]

variable (g : GeometryData)

/-- Complex data: the number of points comes before the coordinates. -/
def complexType (dimensionFlag : Nat) : Checked GeometryData := do
  let npoints ← readU32 g.inputData 6
  return { g with dimensionFlag, hasNpointsData := true, npoints := toInt32 npoints }

def fixedType (dimensionFlag geomName : Nat) : Checked GeometryData :=
  .ok { g with dimensionFlag, geomName }

/-- The switch over the properties byte. -/
def readProperties : Checked GeometryData :=
  match g.geomType with
  | 0x04 =>
    if 26 ≤ g.inputLen then do
      let bytes ← readAt g.inputData 6 20
      if bytes = emptyCoord then return { g with dimensionFlag := 0 } else complexType g 1
    else complexType g 1
  | 0x00 => complexType g 1
  | 0x01 | 0x05 => complexType g 2
  | 0x02 | 0x06 => complexType g 3
  | 0x03 | 0x07 => complexType g 4
  | 0x0C | 0x08 => fixedType g 1 1
  | 0x0D | 0x09 => fixedType g 2 1
  | 0x0E | 0x0A => fixedType g 3 1
  | 0x0F | 0x0B => fixedType g 4 1
  | 0x10 | 0x14 => fixedType g 1 2
  | 0x11 | 0x15 => fixedType g 2 2
  | 0x12 | 0x16 => fixedType g 3 2
  | 0x13 | 0x17 => fixedType g 4 2
  | _ => raise "Unsupported geometry type"

/-- The coordinates are inside the input; 64-bit arithmetic. -/
def checkCoordinates : Checked Unit :=
  let perPoint := match g.dimensionFlag with
    | 4 => 32
    | 2 | 3 => 24
    | _ => 16
  if g.hasNpointsData then do
    throwIf (g.npoints < 0)
    throwIf (10 + g.npoints.toNat * perPoint > g.inputLen)
  else
    throwIf (6 + (if g.geomName = 2 then 2 else 1) * perPoint > g.inputLen)

def markEmpty : GeometryData :=
  if g.hasNpointsData ∧ g.npoints = 0 then { g with dimensionFlag := 0 } else g

def setDimensionFlag : Checked GeometryData :=
  if g.geomClass ≠ 1 ∧ g.geomClass ≠ 2 then
    raise "Unsupported geometry type"
  else do
    let g ← readProperties g
    checkCoordinates (markEmpty g)
    return markEmpty g

/-! ### The checks of coordinates -/

/-- The exponent of a `double`; it is all ones for infinities and for what is not a number. -/
def exponent (bits : Nat) : Nat :=
  bits / 2 ^ 52 % 2 ^ 11

/-- `isnan(x) || isinf(x)` -/
def notFinite (bits : Nat) : Bool :=
  exponent bits == 2047

/-- The loop over `count` coordinates from `pos` on; it ends at the first one that is not finite. -/
def findInvalid (input : List UInt8) : Nat → Nat → Checked Bool
  | 0, _ => .ok false
  | count + 1, pos => do
    let bytes ← readAt input pos 8
    if notFinite (leNat bytes) then return true else findInvalid input count (u32 (pos + 8))

/-- Where the coordinates begin, and how many are looked at. -/
def checkedCoordinates : Nat × Nat :=
  if g.geomName ≠ 1 then
    if g.hasNpointsData then (10, u32 (ofInt32 g.npoints * 2)) else (6, 4)
  else (6, 2)

def checkNanCoordinates : Checked GeometryData := do
  let found ← findInvalid g.inputData (toInt32 (checkedCoordinates g).2).toNat
    (checkedCoordinates g).1
  return if found then { g with hasInvalidCoords := true } else g

/-- An empty geometry has no coordinates to check. -/
def checkNanUnlessEmpty : Checked GeometryData :=
  if g.dimensionFlag ≠ 0 then checkNanCoordinates g else .ok g

/-- `geography_valid_srids`, each run of consecutive numbers by its first one and its length. -/
def geographyValidSrids : List Int :=
  [(4120, 5), (4127, 13), (4141, 31), (4173, 4), (4178, 7), (4188, 29), (4218, 8), (4227, 1),
    (4229, 4), (4236, 24), (4261, 3), (4265, 22), (4288, 2), (4292, 2), (4295, 1), (4297, 8),
    (4306, 14), (4322, 1), (4324, 1), (4326, 1), (4600, 31), (4632, 2), (4636, 9), (4646, 1),
    (4657, 24), (4682, 3), (4686, 45), (4732, 27), (4801, 11), (4813, 6), (4820, 2), (4895, 1),
    (4898, 1), (4900, 5), (4907, 1), (4909, 1), (4921, 1), (4923, 1), (4925, 1), (4927, 1),
    (4929, 1), (4931, 1), (4933, 1), (4935, 1), (4937, 1), (4939, 1), (4941, 1), (4943, 1),
    (4945, 1), (4947, 1), (4949, 1), (4951, 1), (4953, 1), (4955, 1), (4957, 1), (4959, 1),
    (4961, 1), (4963, 1), (4965, 1), (4967, 1), (4971, 1), (4973, 1), (4975, 1), (4977, 1),
    (4979, 1), (4981, 1), (4983, 1), (4985, 1), (4987, 1), (4989, 1), (4991, 1), (4993, 1),
    (4995, 1), (4997, 1), (4999, 1), (7843, 2), (104001, 1)].flatMap
    fun run : Int × Nat => (List.range run.2).map fun k => run.1 + k

/-- The binary search between two indices. -/
def searchSrid (srid : Int) : Nat → Int → Int → Bool
  | 0, _, _ => false
  | fuel + 1, first, last =>
    if first ≤ last then
      let middle := first + (last - first) / 2
      let entry := geographyValidSrids.getD middle.toNat 0
      if entry = srid then true
      else if entry < srid then searchSrid srid fuel (middle + 1) last
      else searchSrid srid fuel first (middle - 1)
    else false

def isValidGeographySrid (srid : Int) : Bool :=
  searchSrid srid (geographyValidSrids.length + 1) 0 (geographyValidSrids.length - 1)

/-- `x < -limit || x > limit`, for a number `x` and a positive `limit`: the bits of numbers without
a sign are in the order of the numbers. -/
def beyond (limit bits : Nat) : Bool :=
  decide (limit < bits % 2 ^ 63)

/-- The latitude and the longitude of one point: numbers, and in `[-90, 90]` and
`[-15069, 15069]`. -/
def validateLatitude (pos : Nat) : Checked Unit := do
  let lat ← readAt g.inputData pos 8
  let lon ← readAt g.inputData (pos + 8) 8
  if g.hasInvalidCoords ∨ notFinite (leNat lat) ∨ notFinite (leNat lon) ∨
      beyond 0x4056800000000000 (leNat lat) ∨ beyond 0x40cd6e8000000000 (leNat lon) then
    raise "Error converting data type varbinary to geography."
  else
    return ()

/-- How many points are looked at, and where they begin. -/
def checkedPoints : Nat × Nat :=
  if g.geomName ≠ 1 then
    if g.hasNpointsData then (g.npoints.toNat, 10) else (2, 6)
  else (1, 6)

def validateGeographyLatitudeBytes : Checked Unit :=
  if isValidGeographySrid g.srid then
    forRange (fun i _ => validateLatitude g (u32 ((checkedPoints g).2 + u32 (i * 16)))) 0
      (checkedPoints g).1 ()
  else
    raise "Error converting data type varbinary to geography."

def validateLatitudeUnlessEmpty : Checked Unit :=
  if g.dimensionFlag ≠ 0 then validateGeographyLatitudeBytes g else .ok ()

/-! ### The tables of figures and shapes -/

def checkMetadataBounds (base off sz : Nat) : Checked Unit :=
  throwIf (base + off + sz > g.inputLen)

def checkIncreasing (figures : List Figure) (i pointOffset : Nat) : Checked Unit :=
  if i > 0 then do
    let before ← elemAt figures (i - 1)
    throwIf (pointOffset ≤ before.pointOffset)
  else .ok ()

/-- One figure; the state is the offset and the figures so far. -/
def parseFigure (npoints metadata i : Nat) (s : Nat × List Figure) :
    Checked (Nat × List Figure) := do
  let figureAttribute ← readByte g.inputData (metadata + s.1)
  let pointOffset ← readU32 g.inputData (metadata + s.1 + 1)
  throwIf (figureAttribute > 2)
  throwIf (i = 0 ∧ pointOffset ≠ 0)
  throwIf (pointOffset ≥ npoints)
  checkIncreasing s.2 i pointOffset
  return (u32 (s.1 + 5), s.2 ++ [⟨figureAttribute, pointOffset⟩])

/-- One shape; the state is the offset and the shapes so far. -/
def parseShape (metadata i : Nat) (s : Nat × List Shape) :
    Checked (Nat × List Shape) := do
  let parentIndex ← readU32 g.inputData (metadata + s.1)
  let figureOffset ← readU32 g.inputData (metadata + s.1 + 4)
  let type ← readByte g.inputData (metadata + u32 (s.1 + 8))
  throwIf (i = 0 ∧ toInt32 parentIndex ≠ -1)
  throwIf (figureOffset ≥ g.nfigures ∧ figureOffset ≠ 0xFFFFFFFF)
  return (u32 (s.1 + 9), s.2 ++ [⟨toInt32 parentIndex, figureOffset, type⟩])

def validateStroke (i : Nat) : Checked Unit := do
  let figure ← elemAt g.figures i
  throwIf (figure.figureAttribute ≠ 1)

def validateLinestringFigures : Checked Unit :=
  forRange (fun i _ => validateStroke g i) 0 g.nfigures ()

/-- The number of points of a figure, from its offset and the next one. -/
def ringPoints (npoints i : Nat) : Checked Nat := do
  let figure ← elemAt g.figures i
  if i < g.nfigures - 1 then
    let next ← elemAt g.figures (i + 1)
    return sub32 next.pointOffset figure.pointOffset
  else
    return sub32 npoints figure.pointOffset

/-- One ring; the state is the number of points so far. -/
def validateRing (npoints i total : Nat) : Checked Nat := do
  let figure ← elemAt g.figures i
  throwIf (figure.figureAttribute ≠ 2 ∧ figure.figureAttribute ≠ 0)
  let points ← ringPoints g npoints i
  throwIf (points < 4)
  return u32 (total + points)

def validatePolygonFigures (npoints : Nat) : Checked Unit := do
  let total ← forRange (validateRing g npoints) 0 g.nfigures 0
  throwIf (total ≠ npoints)

def validateChild (expectedChildType : UInt8) (i : Nat) : Checked Unit := do
  let shape ← elemAt g.shapes i
  throwIf (shape.parentIndex ≠ 0)
  throwIf (shape.type ≠ expectedChildType)
  throwIf (shape.figureOffset ≥ g.nfigures)

def validateMultiFigures (npoints : Nat) (expectedChildType : UInt8) :
    Checked Unit := do
  forRange (fun i _ => validateChild g expectedChildType i) 1 (g.nshapes - 1) ()
  match expectedChildType with
  | 1 | 2 => validateLinestringFigures g
  | 3 => validatePolygonFigures g npoints
  | _ => throwVarbinaryConversionError

/-- The kind of geometry, from the type of the first shape. -/
def resolveType (npoints : Nat) : Checked GeometryData := do
  let root ← elemAt g.shapes 0
  match root.type with
  | 2 => do
    validateLinestringFigures g
    return { g with geomName := 2 }
  | 3 => do
    validatePolygonFigures g npoints
    return { g with geomName := 3 }
  | 1 => return { g with geomName := 1 }
  | 4 => do
    validateMultiFigures g npoints 1
    return { g with geomName := 4 }
  | 5 => do
    validateMultiFigures g npoints 2
    return { g with geomName := 5 }
  | t => raise s!"Unsupported geometry type: {t}"

/-- The table of figures, and the offset behind it. -/
def parseFigures (npoints metadata : Nat) : Checked (GeometryData × Nat) := do
  checkMetadataBounds g metadata 0 4
  let nfigures ← readU32 g.inputData metadata
  throwIf (nfigures < 1 ∨ nfigures > npoints)
  checkMetadataBounds g metadata 4 (u32 (nfigures * 5))
  let _ ← palloc (fun _ => 0) (nfigures * 8)
  let s ← forRange (parseFigure g npoints metadata) 0 nfigures (4, [])
  return ({ g with nfigures, figures := s.2 }, s.1)

/-- The table of shapes, from an offset on. -/
def parseShapes (metadata offset : Nat) : Checked GeometryData := do
  checkMetadataBounds g metadata offset 4
  let nshapes ← readU32 g.inputData (metadata + offset)
  throwIf (nshapes < 1)
  checkMetadataBounds g metadata (u32 (offset + 4)) (u32 (nshapes * 9))
  let _ ← palloc (fun _ => 0) (nshapes * 12)
  let s ← forRange (parseShape g metadata) 0 nshapes (u32 (offset + 4), [])
  return { g with nshapes, shapes := s.2, metadataSize := s.1 }

/-- Where the tables begin. -/
def GeometryData.metadata : Nat :=
  10 + u32 (ofInt32 g.npoints * stride g.hasZ g.hasM)

def parseFiguresAndShapes : Checked GeometryData := do
  let figures ← parseFigures g (ofInt32 g.npoints) g.metadata
  let g ← parseShapes figures.1 g.metadata figures.2
  resolveType g (ofInt32 g.npoints)

/-! ### Coordinates -/

/-- A coordinate that not all points have. -/
def copyIf (present : Bool) (input : List UInt8) (pos dst : Nat) (buf : List UInt8) :
    Checked (List UInt8) :=
  if present then do
    let bytes ← readAt input pos 8
    writeAt buf dst bytes
  else .ok buf

/-- One point: its X and Y, its Z and its M, which are at three places of the input, written one
behind the other. -/
def copyPoint (xy z m : Nat) (hasZ hasM : Bool) (dst : Nat)
    (buf : List UInt8) : Checked (List UInt8) := do
  let bytes ← readAt input xy 16
  let buf ← writeAt buf dst bytes
  let buf ← copyIf hasZ input z (dst + 16) buf
  copyIf hasM input m (dst + 16 + (if hasZ then 8 else 0)) buf

def copyCoordinatesWithDimensions (src dst npoints : Nat) (hasZ hasM : Bool)
    (buf : List UInt8) : Checked (List UInt8) :=
  forRange (fun i =>
    copyPoint input (src + i * 16) (src + u32 (npoints * 16) + i * 8)
      (src + u32 (npoints * 16) + (if hasZ then u32 (npoints * 8) else 0) + i * 8) hasZ hasM
      (dst + u32 (i * stride hasZ hasM))) 0 npoints buf

/-- One point of a ring; the state is the offset in the result and the result. -/
def copyRingPoint (src dst totalPoints startPoint : Nat) (hasZ hasM : Bool)
    (i : Nat) (s : Nat × List UInt8) : Checked (Nat × List UInt8) := do
  let idx := u32 (startPoint + i)
  let buf ← copyPoint input (src + u32 (idx * 16)) (src + u32 (totalPoints * 16) + u32 (idx * 8))
    (src + u32 (totalPoints * 16 + (if hasZ then totalPoints * 8 else 0) + idx * 8)) hasZ hasM
    (dst + s.1) s.2
  return (u32 (s.1 + stride hasZ hasM), buf)

def copyPolygonRingCoordinates
    (src dst totalPoints startPoint ringPoints : Nat) (hasZ hasM : Bool) (buf : List UInt8) :
    Checked (List UInt8) := do
  let s ← forRange (copyRingPoint input src dst totalPoints startPoint hasZ hasM) 0 ringPoints
    (0, buf)
  return s.2

def GeometryData.source : Nat :=
  6 + (if g.hasNpointsData then 4 else 0)

/-- One ring; the state is the offset in the result and the result. -/
def writeRing (npoints i : Nat) (s : Nat × List UInt8) :
    Checked (Nat × List UInt8) := do
  let figure ← elemAt g.figures i
  let points ← ringPoints g npoints i
  let buf ← writeAt s.2 (13 + s.1) (leBytes 4 points)
  let offset := u32 (s.1 + 4)
  let buf ← copyPolygonRingCoordinates g.inputData g.source (13 + offset) npoints
    figure.pointOffset points g.hasZ g.hasM buf
  return (u32 (offset + points * stride g.hasZ g.hasM), buf)

def handlePolygonCoordinates (buf : List UInt8) : Checked (List UInt8) := do
  let npoints := if g.hasNpointsData then ofInt32 g.npoints else 2
  let buf ← writeAt buf 9 (leBytes 4 g.nfigures)
  let s ← forRange (writeRing g npoints) 0 g.nfigures (0, buf)
  return s.2

def handleLinestringCoordinates (buf : List UInt8) : Checked (List UInt8) := do
  let npoints := if g.hasNpointsData then ofInt32 g.npoints else 2
  let buf ← writeAt buf 9 (leBytes 4 npoints)
  copyCoordinatesWithDimensions g.inputData g.source 13 npoints g.hasZ g.hasM buf

def handlePointCoordinates (buf : List UInt8) : Checked (List UInt8) :=
  copyPoint g.inputData g.source (g.source + 16) (g.source + (16 + if g.hasZ then 8 else 0)) g.hasZ
    g.hasM 9 buf

/-! ### Geometries of several parts -/

def getWkbType (baseType : Nat) (hasZ hasM : Bool) : Nat :=
  if hasZ ∧ hasM then baseType + 3000
  else if hasZ then baseType + 1000
  else if hasM then baseType + 2000
  else baseType

/-- Returns the number of bytes too, as the source does. -/
def writeInterleavedPoint (src totalPoints idx : Nat) (hasZ hasM : Bool)
    (dst : Nat) (buf : List UInt8) : Checked (Nat × List UInt8) := do
  let buf ← copyPoint input (src + u32 (idx * 16)) (src + u32 (totalPoints * 16) + u32 (idx * 8))
    (src + u32 (totalPoints * 16 + (if hasZ then totalPoints * 8 else 0)) + u32 (idx * 8)) hasZ hasM
    dst buf
  return (stride hasZ hasM, buf)

def writeWkbPointChild (src totalPoints idx : Nat) (hasZ hasM : Bool)
    (dst : Nat) (buf : List UInt8) : Checked (Nat × List UInt8) := do
  let buf ← writeAt buf dst [0x01]
  let buf ← writeAt buf (dst + 1) (leBytes 4 (getWkbType 1 hasZ hasM))
  let s ← writeInterleavedPoint input src totalPoints idx hasZ hasM (dst + 5) buf
  return (u32 (5 + s.1), s.2)

/-- One point of a part; the state is the offset in the part and the result. -/
def writeChildPoint (src totalPoints start : Nat) (hasZ hasM : Bool)
    (dst i : Nat) (s : Nat × List UInt8) : Checked (Nat × List UInt8) := do
  let t ← writeInterleavedPoint input src totalPoints (u32 (start + i)) hasZ hasM (dst + s.1) s.2
  return (u32 (s.1 + t.1), t.2)

def writeWkbLinestringChild (src totalPoints start childNpoints : Nat)
    (hasZ hasM : Bool) (dst : Nat) (buf : List UInt8) : Checked (Nat × List UInt8) := do
  let buf ← writeAt buf dst [0x01]
  let buf ← writeAt buf (dst + 1) (leBytes 4 (getWkbType 2 hasZ hasM))
  let buf ← writeAt buf (dst + 5) (leBytes 4 childNpoints)
  forRange (writeChildPoint input src totalPoints start hasZ hasM dst) 0 childNpoints (9, buf)

def writeChildWkb (src totalPoints start childNpoints parentType : Nat)
    (hasZ hasM : Bool) (dst : Nat) (buf : List UInt8) : Checked (Nat × List UInt8) :=
  match parentType with
  | 4 => writeWkbPointChild input src totalPoints start hasZ hasM dst buf
  | 5 => writeWkbLinestringChild input src totalPoints start childNpoints hasZ hasM dst buf
  | _ => throwVarbinaryConversionError

def calculateChildWkbSize (parentType childNpoints : Nat) (hasZ hasM : Bool) : Checked Nat :=
  match parentType with
  | 4 => .ok (5 + stride hasZ hasM)
  | 5 => do
    let size := 9 + childNpoints * stride hasZ hasM
    throwIf (size > maxAllocSize)
    return size
  | _ => .ok 0

def childFigEnd (child : Nat) : Checked Nat :=
  if child < g.nshapes - 1 then do
    let next ← elemAt g.shapes (child + 1)
    return next.figureOffset
  else .ok g.nfigures

def childPtEnd (figEnd : Nat) : Checked Nat :=
  if figEnd < g.nfigures then do
    let figure ← elemAt g.figures figEnd
    return figure.pointOffset
  else .ok (ofInt32 g.npoints)

/-- The first point of a part and the number of its points. -/
def getChildInfo (child : Nat) : Checked (Nat × Nat) := do
  let shape ← elemAt g.shapes child
  throwIf (shape.figureOffset ≥ g.nfigures)
  let figure ← elemAt g.figures shape.figureOffset
  let figEnd ← childFigEnd g child
  let ptEnd ← childPtEnd g figEnd
  return (figure.pointOffset, sub32 ptEnd figure.pointOffset)

def dimensionHeaders : List UInt8 :=
  [0x20, 0x20, 0xA0, 0x60, 0xE0]

/-- The first five bytes of the result. -/
def postgisHeader (type : UInt8) (dimensionFlag : Nat) : List UInt8 :=
  [0x01, type, 0x00, 0x00, dimensionHeaders.getD dimensionFlag 0x20]

/-- The size of the result with one part more. -/
def addChildSize (i accum : Nat) : Checked Nat := do
  let child ← getChildInfo g (i + 1)
  let size ← calculateChildWkbSize g.geomName child.2 g.hasZ g.hasM
  throwIf (accum + size > maxAllocSize)
  return accum + size

/-- One part; the state is the offset in the result and the result. -/
def writeChild (i : Nat) (s : Nat × List UInt8) :
    Checked (Nat × List UInt8) := do
  let child ← getChildInfo g (i + 1)
  let t ← writeChildWkb g.inputData 10 (ofInt32 g.npoints) child.1 child.2 g.geomName g.hasZ g.hasM
    s.1 s.2
  return (u32 (s.1 + t.1), t.2)

def multiTypeByte : Checked UInt8 :=
  match g.geomName with
  | 4 => .ok 0x04
  | 5 => .ok 0x05
  | _ => throwVarbinaryConversionError

def handleMultiToPostgis (g : GeometryData) : Checked (List UInt8) := do
  let nchildren := g.nshapes - 1
  let type ← multiTypeByte g
  let size ← forRange (addChildSize g) 0 nchildren 13
  let buf ← pallocBytea junk size
  let buf ← writeAt buf 0 (postgisHeader type g.dimensionFlag)
  let srid ← readAt g.inputData 0 4
  let buf ← writeAt buf 5 srid
  let buf ← writeAt buf 9 (leBytes 4 nchildren)
  let s ← forRange (writeChild g) 0 nchildren (13, buf)
  return s.2

/-! ### The result -/

def calculatePolygonSize : Nat :=
  let ringHeaders := u32 (4 * u32 (g.nfigures + 1))
  u32 (sub32 (u32 (sub32 (sub32 g.inputLen 2) 4 + 5)) g.metadataSize + ringHeaders)

def calculateLinestringSize : Nat :=
  if g.hasNpointsData then sub32 (u32 (sub32 g.inputLen 2 + 5)) 22
  else u32 (sub32 g.inputLen 2 + 5 + 4)

def calculatePointSize : Nat :=
  9 + stride g.hasZ g.hasM

/-- The header and the SRID, in fresh memory of zeros. -/
def startResult (type : UInt8) (size : Nat) : Checked (List UInt8) := do
  let buf ← pallocBytea (fun _ => 0) size
  let buf ← writeAt buf 0 (postgisHeader type g.dimensionFlag)
  let srid ← readAt g.inputData 0 4
  writeAt buf 5 srid

/-- The result for a geometry whose kind is known. -/
def convertGeometry (g : GeometryData) : Checked (List UInt8) :=
  match g.geomName with
  | 1 => do
    let buf ← startResult g 0x01 (calculatePointSize g)
    handlePointCoordinates g buf
  | 2 => do
    let buf ← startResult g 0x02 (calculateLinestringSize g)
    handleLinestringCoordinates g buf
  | 3 => do
    let buf ← startResult g 0x03 (calculatePolygonSize g)
    handlePolygonCoordinates g buf
  | 4 | 5 => handleMultiToPostgis junk g
  | _ => throwVarbinaryConversionError

/-- Complex data has its kind in the tables. -/
def resolveKind : Checked GeometryData :=
  if g.hasNpointsData ∧ g.geomName = 0 then parseFiguresAndShapes g else .ok g

/-- The data is returned as well, as the tables change it. -/
def handleNonEmptyGeometryBytea (g : GeometryData) :
    Checked (GeometryData × List UInt8) := do
  let g ← resolveKind g
  let result ← convertGeometry junk g
  return (g, result)

def nanCoord : List UInt8 :=
  [0x00, 0x00, 0x00, 0x00, 0x00, 0x00, 0xf8, 0x7f]

def createEmptyPoint : Checked (List UInt8) := do
  let buf ← pallocBytea (fun _ => 0) 25
  let buf ← writeAt buf 0 [0x01, 0x01, 0x00, 0x00, 0x20]
  let srid ← readAt g.inputData 0 4
  let buf ← writeAt buf 5 srid
  let buf ← writeAt buf 9 nanCoord
  writeAt buf 17 nanCoord

def createEmptyGeometry (type : UInt8) : Checked (List UInt8) := do
  let buf ← pallocBytea (fun _ => 0) 13
  let buf ← writeAt buf 0 [0x01, type, 0x00, 0x00, 0x20]
  let srid ← readAt g.inputData 0 4
  let buf ← writeAt buf 5 srid
  writeAt buf 9 [0x00, 0x00, 0x00, 0x00]

/-- The last byte of an empty geometry says what it is. -/
def emptyType : Checked UInt8 :=
  if g.geomType = 0x04 then do
    throwIf (g.inputLen < 27)
    let bytes ← readAt g.inputData 6 20
    if bytes ≠ emptyCoord then raise "Unsupported geometry type" else readByte g.inputData 26
  else do
    throwIf (g.inputLen < 27)
    readByte g.inputData 26

def handleEmptyGeometryBytea : Checked (List UInt8) := do
  let type ← emptyType g
  match type with
  | 0x01 => createEmptyPoint g
  | 0x02 => createEmptyGeometry g 0x02
  | 0x03 => createEmptyGeometry g 0x03
  | 0x04 => createEmptyGeometry g 0x04
  | 0x05 => createEmptyGeometry g 0x05
  | _ => raise "Unsupported geometry type"

def processGeometryData (g : GeometryData) :
    Checked (GeometryData × List UInt8) :=
  if g.dimensionFlag = 0 then do
    let result ← handleEmptyGeometryBytea g
    return (g, result)
  else
    handleNonEmptyGeometryBytea junk g

/-- What `geometry_from_bytea` hands to PostGIS. -/
def geometryFromBytea (input : List UInt8) : Checked (List UInt8) := do
  validateInputLength input "Geometry"
  let g ← initializeGeometryData input
  let g ← setDimensionFlag g
  let g ← checkNanUnlessEmpty g
  if g.srid < 0 ∨ g.srid > 999999 ∨ g.hasInvalidCoords then
    raise "Error converting data type varbinary to geometry."
  else
    let processed ← processGeometryData junk g
    return processed.2

/-- What `geography_from_bytea` hands to PostGIS. -/
def geographyFromBytea (input : List UInt8) : Checked (List UInt8) := do
  validateInputLength input "Geography"
  let g ← initializeGeometryData input
  let g ← setDimensionFlag g
  let g ← checkNanUnlessEmpty g
  let processed ← processGeometryData junk g
  validateLatitudeUnlessEmpty processed.1
  return processed.2

end Babelfish.Common.Spatial
