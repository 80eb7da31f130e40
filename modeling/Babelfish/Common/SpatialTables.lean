import Babelfish.Common.SpatialColumns

/-!
# The tables of figures and shapes

What the functions `write_*_clr_metadata` append to the result: the figures, each with the number of
the points before it, and the shapes.

* `runFigures`, `multiShapes`: the figures of points that are divided into runs, and the shapes of a
  geometry of several parts.
* `tableBytes`: both tables.
* `writePolygonClrMetadata_writes`, `writeMultilinestringClrMetadata_writes` and the like.
-/

namespace Babelfish.Common.Spatial

open Lib List

/-! ### The entries -/

def Figure.bytes (f : Figure) : List UInt8 :=
  [f.figureAttribute] ++ leBytes 4 f.pointOffset

def Shape.bytes (s : Shape) : List UInt8 :=
  leBytes 4 (ofInt32 s.parentIndex) ++ leBytes 4 s.figureOffset ++ [s.type]

theorem Figure.length_bytes (f : Figure) : f.bytes.length = 5 := by
  rw [Figure.bytes, length_append, length_leBytes]
  rfl

theorem Shape.length_bytes (s : Shape) : s.bytes.length = 9 := by
  rw [Shape.bytes, length_append, length_append, length_leBytes, length_leBytes]
  rfl

variable (figures : List Figure) {shapes : List Shape}

theorem length_figures : (figures.flatMap Figure.bytes).length = figures.length * 5 :=
  length_flatMap_of_length_eq fun f _ => f.length_bytes

theorem length_shapes : (shapes.flatMap Shape.bytes).length = shapes.length * 9 :=
  length_flatMap_of_length_eq fun s _ => s.length_bytes

def tableBytes (shapes : List Shape) : List UInt8 :=
  leBytes 4 figures.length ++ figures.flatMap Figure.bytes ++ leBytes 4 shapes.length
    ++ shapes.flatMap Shape.bytes

theorem length_tableBytes :
    (tableBytes figures shapes).length = 8 + 5 * figures.length + 9 * shapes.length := by
  rw [tableBytes, length_append, length_append, length_append, length_leBytes,
    length_leBytes, length_figures, length_shapes]
  omega

/-- A figure for each run of points; it begins behind the runs before it. -/
def runFigures {α : Type} (figureAttribute : Nat → UInt8) (runs : List (List α)) : List Figure :=
  (List.range runs.length).map fun i => ⟨figureAttribute i, (runs.take i).flatten.length⟩

section
variable {α : Type} {figureAttribute : Nat → UInt8}

@[simp] theorem length_runFigures (runs : List (List α)) :
    (runFigures figureAttribute runs).length = runs.length := by
  simp [runFigures]

end

/-- The shape of a geometry of several parts, and those of the parts. -/
def multiShapes (rootType childType : UInt8) (count : Nat) : List Shape :=
  ⟨-1, 0, rootType⟩ :: (List.range count).map fun i => ⟨0, i, childType⟩

theorem length_multiShapes (rootType childType : UInt8) (count : Nat) :
    (multiShapes rootType childType count).length = count + 1 := by
  simp [multiShapes]

section
variable {E : MemFault String → Prop} {size pos dst : Nat} {bytes : List UInt8}

theorem writeFigureEntry_writes {pointOffset : Nat} {figureAttribute : UInt8} (hdst : dst = pos) :
    Writes E size pos (writeFigureEntry dst figureAttribute pointOffset)
      (Figure.bytes ⟨figureAttribute, pointOffset⟩) id :=
  (Writes.writeAt hdst).seq (.writeAt (by rw [hdst]; rfl))

theorem writeShapeEntry_writes {figureOffset : Nat} {parentIndex : Int} {type : UInt8}
    (hdst : dst = pos) :
    Writes E size pos (writeShapeEntry dst parentIndex figureOffset type)
      (Shape.bytes ⟨parentIndex, figureOffset, type⟩) id := by
  rw [Shape.bytes, append_assoc]
  refine (Writes.writeAt hdst).seq ((Writes.writeAt ?_).seq (.writeAt ?_))
  · rw [length_leBytes, hdst]
  · rw [length_leBytes, length_leBytes, hdst]

/-! ### Figures -/

theorem length_figures_before (figure : Nat → Figure) (i : Nat) :
    ((List.range i).flatMap fun i => (figure i).bytes).length = i * 5 := by
  rw [length_flatMap_of_length_eq fun i _ => (figure i).length_bytes, length_range]

/-- The figures of runs that are written as `write`, with their number of points at `countAt`. -/
theorem writeRunFigures_writes {α : Type} {runs : List (List α)} {write : List α → List UInt8}
    {countAt src : Nat} {next : Nat → Nat → Nat} {figureAttribute : Nat → UInt8}
    (hsrc : OccursAt bytes src (runs.flatMap write))
    (hcountAt : ∀ run ∈ runs, ∀ src, OccursAt bytes src (write run) →
      readU32 bytes (src + countAt) = .ok run.length ∧
        next src run.length = src + (write run).length)
    (htotal : runs.flatten.length < 2 ^ 32) (hdst : dst + 4 = pos) (hsize : size < 2 ^ 32) :
    Writes E size pos
      (fun buf => forRange (writeRunFigure bytes dst countAt next figureAttribute) 0 runs.length
        ⟨src, 4, 0, buf⟩)
      ((runFigures figureAttribute runs).flatMap Figure.bytes)
      fun buf => ⟨src + (runs.flatMap write).length, 4 + 5 * runs.length, runs.flatten.length,
        buf⟩ := by
  rw [runFigures, flatMap_map]
  -- The state behind so many runs; behind all of them nothing is left out.
  suffices hloop : Writes E size pos _ _ fun buf =>
      FigurePass.mk (src + ((runs.take runs.length).flatMap write).length) (4 + 5 * runs.length)
        (runs.take runs.length).flatten.length buf by
    rwa [take_length] at hloop
  refine .forCount (r := fun i buf => FigurePass.mk
    (src + ((runs.take i).flatMap write).length) (4 + 5 * i) (runs.take i).flatten.length buf)
    fun i hi => .of_fit fun hfit => ?_
  have hsplit : runs = runs.take i ++ runs[i] :: runs.drop (i + 1) := by simp
  have hpart : OccursAt bytes (src + ((runs.take i).flatMap write).length) (write runs[i]) := by
    rw [hsplit] at hsrc
    exact hsrc.part
  obtain ⟨hn, hnext⟩ := hcountAt _ (getElem_mem hi) _ hpart
  have hflat : (runs.take i).flatten.length + runs[i].length ≤ runs.flatten.length := by
    have hlen := congrArg (fun l : List (List α) => l.flatten.length) hsplit
    simp only [flatten_append, flatten_cons, length_append] at hlen
    omega
  rw [length_figures_before] at hfit ⊢
  rw [Figure.length_bytes] at hfit
  unfold writeRunFigure
  dsimp only
  refine (writeFigureEntry_writes (by omega)).map fun buf => ?_
  rw [hn, ok_bind, hnext, u32_eq (n := _ + runs[i].length) (by omega), u32_eq (by omega),
    take_succ_eq_append_getElem hi, flatMap_append, flatMap_singleton, length_append,
    flatten_append, flatten_singleton, length_append, Nat.add_assoc src]
  rfl

def pointFigures (n : Nat) : List Figure :=
  (List.range n).map fun i => ⟨0x01, i⟩

theorem pointFigures_eq {α : Type} (l : List α) :
    pointFigures l.length = runFigures (fun _ => 0x01) (l.map fun a => [a]) := by
  unfold pointFigures runFigures
  rw [length_map]
  refine map_congr_left fun i hi => ?_
  have hlen : ((take i (l.map fun a => [a])).flatten).length = i := by
    rw [← map_take, ← flatMap_def, flatMap_singleton',
      length_take_of_le (Nat.le_of_lt (mem_range.mp hi))]
  rw [hlen]

theorem writePointFigures_writes {n : Nat} (hdst : dst + 4 = pos) (hsize : size < 2 ^ 32) :
    Writes E size pos (fun buf => forRange (writePointFigure dst) 0 n (4, buf))
      ((pointFigures n).flatMap Figure.bytes) fun buf => (4 + 5 * n, buf) := by
  rw [pointFigures, flatMap_map]
  refine .forCount (r := fun i buf => (4 + 5 * i, buf)) fun i hi => .of_fit fun hfit => ?_
  rw [length_figures_before] at hfit ⊢
  rw [Figure.length_bytes] at hfit
  unfold writePointFigure
  dsimp only
  refine (writeFigureEntry_writes (by omega)).map fun buf => ?_
  rw [u32_eq (by omega)]
  rfl

/-! ### Shapes -/

theorem writeMultiShapes_writes {off count : Nat} {rootType childType : UInt8}
    (hdst : dst + off = pos) (hsize : size < 2 ^ 32) :
    Writes E size pos (writeMultiShapes dst off count rootType childType)
      (leBytes 4 (count + 1) ++ (multiShapes rootType childType count).flatMap Shape.bytes) id := by
  refine .of_fit fun hfit => ?_
  rw [length_append, length_leBytes, length_shapes, length_multiShapes] at hfit
  rw [multiShapes, flatMap_cons, flatMap_map]
  unfold writeMultiShapes
  simp (disch := omega) only [u32_eq]
  refine (Writes.writeAt hdst).seq ((writeShapeEntry_writes ?_).seq ((Writes.forCount
    (r := fun i buf => (off + 13 + 9 * i, buf)) fun i hi => ?_).map fun _ => rfl))
  · rw [length_leBytes, ← hdst, Nat.add_assoc]
  · have hbefore : ((range i).flatMap fun i => Shape.bytes ⟨0, i, childType⟩).length =
        i * 9 := by
      rw [length_flatMap_of_length_eq fun i _ => Shape.length_bytes _, length_range]
    unfold writeChildShape
    dsimp only
    refine (writeShapeEntry_writes ?_).map fun buf => ?_
    · rw [hbefore, length_leBytes, Shape.length_bytes, ← hdst]
      omega
    · rw [u32_eq (by omega)]
      rfl

/-! ### The tables of each kind -/

theorem writeLinestringClrMetadata_writes (hdst : dst = pos) :
    Writes E size pos (writeLinestringClrMetadata dst)
      (tableBytes [⟨0x01, 0⟩] [⟨-1, 0, 2⟩]) id := by
  rw [tableBytes, append_assoc, append_assoc, flatMap_singleton, flatMap_singleton]
  subst hdst
  exact (Writes.writeAt rfl).seq ((writeFigureEntry_writes rfl).seq
    ((Writes.writeAt rfl).seq (writeShapeEntry_writes rfl)))

section
variable {info : GeoDataInfo} {geo hasZ hasM : Bool}

theorem writePolygonClrMetadata_writes {rings : List (List (Point hasZ hasM))}
    (hstride : info.stride = stride hasZ hasM) (hsrc : OccursAt info.byteData (info.offset geo)
      (leBytes 4 rings.length ++ rings.flatMap runBytes)) (hcount : rings.length < 2 ^ 32)
    (htotal : rings.flatten.length < 2 ^ 32) (hdst : dst = pos) (hsize : size < 2 ^ 32) :
    Writes E size pos (writePolygonClrMetadata info geo dst)
      (tableBytes (runFigures (fun i => if i = 0 then 0x02 else 0x00) rings) [⟨-1, 0, 3⟩]) id := by
  have hrings := hsrc.right
  rw [length_leBytes] at hrings
  refine .of_fit fun hfit => ?_
  rw [length_tableBytes, length_runFigures] at hfit
  rw [tableBytes, append_assoc, append_assoc, flatMap_singleton, length_runFigures]
  refine .after (readU32_of_occurs hsrc.left hcount) ((Writes.writeAt hdst).seq
    ((writeRunFigures_writes hrings ?_ htotal ?_ hsize).seq ?_))
  · intro ring hring src hsrc
    have hlen : ring.length ≤ rings.flatten.length := List.Sublist.length_le
      (sublist_flatten_of_mem hring)
    refine ⟨readU32_of_occurs hsrc.left (by omega), ?_⟩
    rw [hstride, length_runBytes]
  · rw [length_leBytes, hdst]
  · have hlen := length_figures (runFigures (fun i => if i = 0 then 0x02 else 0x00) rings)
    rw [length_runFigures] at hlen
    dsimp only
    rw [u32_eq (by omega)]
    refine (Writes.writeAt ?_).seq (writeShapeEntry_writes ?_)
    · rw [length_leBytes, hlen, hdst]
      omega
    · rw [length_leBytes, hlen, length_leBytes, hdst]
      omega

theorem writeMultipointClrMetadata_writes {n : Nat} (hdst : dst = pos) (hsize : size < 2 ^ 32) :
    Writes E size pos (writeMultipointClrMetadata n dst)
      (tableBytes (pointFigures n) (multiShapes 4 1 n)) id := by
  have hfigures : (pointFigures n).length = n := by simp [pointFigures]
  rw [tableBytes, append_assoc, append_assoc, hfigures, length_multiShapes]
  refine (Writes.writeAt hdst).seq ((writePointFigures_writes ?_ hsize).seq
    (writeMultiShapes_writes ?_ hsize))
  · rw [length_leBytes, hdst]
  · show dst + (4 + 5 * n) = _
    rw [length_leBytes, length_figures, hfigures, hdst]
    omega

theorem writeMultilinestringClrMetadata_writes {lines : List (List (Point hasZ hasM))}
    (hstride : info.stride = stride hasZ hasM) (hsrc : OccursAt info.byteData (info.offset geo)
      (leBytes 4 lines.length ++ lines.flatMap lineBytes))
    (hsmall : info.byteData.length ≤ 2 ^ 30) (hcount : lines.length < 2 ^ 32)
    (htotal : lines.flatten.length < 2 ^ 32) (hdst : dst = pos) (hsize : size < 2 ^ 32) :
    Writes E size pos (writeMultilinestringClrMetadata info geo dst)
      (tableBytes (runFigures (fun _ => 0x01) lines) (multiShapes 5 2 lines.length)) id := by
  have hlines := hsrc.right
  rw [length_leBytes] at hlines
  rw [tableBytes, append_assoc, append_assoc, length_runFigures, length_multiShapes]
  refine .after (readU32_of_occurs hsrc.left hcount) ((Writes.writeAt hdst).seq
    ((writeRunFigures_writes hlines ?_ htotal ?_ hsize).seq (writeMultiShapes_writes ?_ hsize)))
  · intro line hline src hsrc
    have hlen : line.length ≤ lines.flatten.length := List.Sublist.length_le
      (sublist_flatten_of_mem hline)
    have hle := hsrc.le
    rw [length_lineBytes] at hle
    refine ⟨readU32_of_occurs (lineBytes_places hsrc).1 (by omega), ?_⟩
    rw [hstride, length_lineBytes, u32_eq (by omega)]
  · rw [length_leBytes, hdst]
  · show dst + (4 + 5 * lines.length) = _
    rw [length_leBytes, length_figures, length_runFigures, hdst]
    omega

end

end

end Babelfish.Common.Spatial
