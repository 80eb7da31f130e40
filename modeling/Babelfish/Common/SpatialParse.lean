import Babelfish.Common.SpatialSafety
import Babelfish.Common.SpatialForward

/-!
# Reading the form of T-SQL again

What the way back finds in a form of T-SQL that was made from a geometry with points: the kind of
data, the dimensions and the number of points, and the same figures and shapes.

* `readForm`: what is known once the dimensions have been read; `setDimensionFlag_clrBytes`.
* `tabledForm`: what is known once the tables have been read; `parseFiguresAndShapes_clrBytes`.
* `figureStart_eq`, `getChildInfo_eq`: where the points of a figure and of a part are.
-/

namespace Babelfish.Common.Spatial

open Lib List Content GeometryData

variable {i metadata n count : Nat}

theorem throwIf_eq {c : Prop} [Decidable c] (h : ¬c) : throwIf c = .ok () :=
  if_neg h

theorem readByte_of_occurs {bs : List UInt8} {pos : Nat} {b : UInt8} (h : OccursAt bs pos [b]) :
    readByte bs pos = .ok b := by
  unfold readByte
  rw [h.readAt_eq length_singleton]
  rfl

/-! ### The geometries that are meant -/

/-- A line has two points or more, a ring four, and no part is empty. -/
def Content.WellFormed {hasZ hasM : Bool} : Content hasZ hasM → Prop
  | point _ => True
  | line ps => 2 ≤ ps.length
  | polygon rings => ∀ ring ∈ rings, 4 ≤ ring.length
  | multiPoint _ => True
  | multiLine lines => ∀ line ∈ lines, line ≠ []

theorem Content.WellFormed.run_ne_nil {hasZ hasM : Bool} {c : Content hasZ hasM}
    (h : c.WellFormed) : ∀ run ∈ c.runs, run ≠ [] := by
  intro run hrun
  cases c with
  | point p =>
    rw [mem_singleton.mp hrun]
    simp
  | line ps =>
    have hlen : 2 ≤ ps.length := h
    rw [mem_singleton.mp hrun]
    rintro rfl
    simp at hlen
  | polygon rings =>
    have hlen := h run hrun
    rintro rfl
    simp at hlen
  | multiPoint ps =>
    obtain ⟨p, -, rfl⟩ := mem_map.mp hrun
    simp
  | multiLine lines => exact h run hrun

/-! ### Figures of runs -/

section
variable {α : Type} {figureAttribute : Nat → UInt8} {runs : List (List α)}

theorem runFigures_getElem? (hi : i < runs.length) :
    (runFigures figureAttribute runs)[i]? =
      some ⟨figureAttribute i, (runs.take i).flatten.length⟩ := by
  unfold runFigures
  rw [getElem?_map, getElem?_range hi]
  rfl

theorem take_flatten_lt (h : ∀ run ∈ runs, run ≠ []) (hi : i < runs.length) :
    (runs.take i).flatten.length < (runs.take (i + 1)).flatten.length := by
  have hpos : 0 < runs[i].length := length_pos_iff.mpr (h _ (getElem_mem hi))
  rw [← take_append_getElem hi, flatten_append, length_append, flatten_singleton]
  omega

theorem take_flatten_le :
    (runs.take i).flatten.length ≤ runs.flatten.length := by
  conv_rhs => rw [← take_append_drop i runs, flatten_append, length_append]
  exact Nat.le_add_right _ _

theorem ascending_runFigures (h : ∀ run ∈ runs, run ≠ []) :
    Ascending (runFigures figureAttribute runs) runs.flatten.length := by
  have hlen : (runFigures figureAttribute runs).length = runs.length := length_runFigures runs
  refine ⟨?_, ?_, ?_⟩
  · refine forall_mem_map.mpr fun i hi => ?_
    have hlt := take_flatten_lt h (mem_range.mp hi)
    exact lt_of_lt_of_le hlt take_flatten_le
  · intro f hf
    have hi : 0 < runs.length := hlen ▸ (List.getElem?_eq_some_iff.mp hf).1
    rw [runFigures_getElem? hi] at hf
    cases hf
    rfl
  · intro i a b ha hb
    have hi : i + 1 < runs.length := hlen ▸ (List.getElem?_eq_some_iff.mp hb).1
    rw [runFigures_getElem? (by omega)] at ha
    rw [runFigures_getElem? hi] at hb
    cases ha
    cases hb
    exact take_flatten_lt h (by omega)

end

/-! ### The tables -/

section
variable {g : GeometryData} {shapes : List Shape} {offset : Nat}

theorem checkIncreasing_eq {pre post : List Figure} {f : Figure}
    (h : Ascending (pre ++ f :: post) n) :
    checkIncreasing pre pre.length f.pointOffset = .ok () := by
  unfold checkIncreasing
  by_cases hpos : pre.length > 0
  · have hlt : pre.length - 1 < pre.length := by omega
    have hgrows := h.grows (pre.length - 1) pre[pre.length - 1] f
      (by rw [getElem?_append_left hlt, getElem?_eq_getElem hlt])
      (by rw [show pre.length - 1 + 1 = pre.length by omega]; simp)
    rw [if_pos hpos, elemAt_eq hlt, ok_bind, throwIf_eq (not_le.mpr hgrows)]
  · exact if_neg hpos

theorem parseFigure_eq {pre post : List Figure} {f : Figure}
    (hocc : OccursAt g.inputData (metadata + 4) ((pre ++ f :: post).flatMap Figure.bytes))
    (hasc : Ascending (pre ++ f :: post) n) (hattr : f.figureAttribute ≤ 2) (hn : n ≤ 2 ^ 26)
    (hpre : pre.length ≤ n) :
    parseFigure g n metadata pre.length (4 + 5 * pre.length, pre) =
      .ok (4 + 5 * (pre.length + 1), pre ++ [f]) := by
  have hbytes := hocc.part
  rw [length_figures] at hbytes
  have hbelow := hasc.below f (by simp)
  have hfirst : ¬(pre.length = 0 ∧ f.pointOffset ≠ 0) := by
    rintro ⟨hnil, hne⟩
    refine hne (hasc.first f ?_)
    rw [length_eq_zero_iff.mp hnil]
    rfl
  have hkind : OccursAt g.inputData (metadata + (4 + 5 * pre.length)) [f.figureAttribute] := by
    have hleft := hbytes.left
    rwa [show metadata + 4 + pre.length * 5 = metadata + (4 + 5 * pre.length) by omega] at hleft
  have hoff : OccursAt g.inputData (metadata + (4 + 5 * pre.length) + 1)
      (leBytes 4 f.pointOffset) := by
    have hright := hbytes.right
    rwa [length_singleton,
      show metadata + 4 + pre.length * 5 + 1 = metadata + (4 + 5 * pre.length) + 1 by omega]
      at hright
  unfold parseFigure
  rw [readByte_of_occurs hkind, ok_bind, readU32_of_occurs hoff (by omega), ok_bind,
    throwIf_eq (UInt8.not_lt.mpr hattr), ok_bind, throwIf_eq hfirst, ok_bind,
    throwIf_eq (not_le.mpr hbelow), ok_bind, checkIncreasing_eq hasc, ok_bind, u32_eq (by omega)]
  rfl

theorem parseFigures_eq {figures : List Figure}
    (hocc : OccursAt g.inputData metadata (tableBytes figures shapes)) (hasc : Ascending figures n)
    (hattr : ∀ f ∈ figures, f.figureAttribute ≤ 2) (hpos : 1 ≤ figures.length)
    (hfew : figures.length ≤ n) (hn : n ≤ 2 ^ 26) :
    parseFigures g n metadata =
      .ok ({ g with nfigures := figures.length, figures }, 4 + 5 * figures.length) := by
  have hroom := hocc.le
  rw [length_tableBytes] at hroom
  have hmax : maxAllocSize = 2 ^ 30 - 1 := rfl
  have hentries := hocc.left.left.right
  have hloop : Ends (fun _ => False)
      (forRange (parseFigure g n metadata) 0 figures.length (4, []))
      fun s => s = (4 + 5 * figures.length, figures) := by
    refine .forList (I := fun pre s => s = (4 + 5 * pre.length, pre)) rfl ?_
    rintro pre f post s hfigures rfl
    have hpre : pre.length ≤ n := by
      rw [hfigures, length_append, length_cons] at hfew
      omega
    rw [hfigures] at hentries hasc hattr
    rw [parseFigure_eq hentries hasc (hattr f (by simp)) hn hpre]
    show (_, _) = (_, _)
    rw [length_append, length_singleton]
  obtain ⟨s, hs, rfl⟩ := hloop.exists_ok
  unfold parseFigures checkMetadataBounds inputLen palloc
  rw [throwIf_eq (by omega), ok_bind, readU32_of_occurs hocc.left.left.left (by omega), ok_bind,
    throwIf_eq (by omega), ok_bind, u32_eq (by omega), throwIf_eq (by omega), ok_bind,
    if_pos (by omega), ok_bind, hs, ok_bind]
  rfl

/-- The shapes that the tables have: the first one has no parent, and all begin at a figure. -/
structure Rooted (shapes : List Shape) (nfigures : Nat) : Prop where
  parents : ∀ s ∈ shapes, s.parentIndex = -1 ∨ s.parentIndex = 0
  root : ∀ s, shapes[0]? = some s → s.parentIndex = -1
  offsets : ∀ s ∈ shapes, s.figureOffset < nfigures

theorem parseShape_eq {pre post : List Shape} {s : Shape}
    (hocc : OccursAt g.inputData (metadata + offset) ((pre ++ s :: post).flatMap Shape.bytes))
    (hsmall : g.inputData.length ≤ 2 ^ 30) (hrooted : Rooted (pre ++ s :: post) g.nfigures)
    (hfigures : g.nfigures ≤ 2 ^ 26) :
    parseShape g metadata pre.length (offset + 9 * pre.length, pre) =
      .ok (offset + 9 * (pre.length + 1), pre ++ [s]) := by
  have hmem : s ∈ pre ++ s :: post := by simp
  have hbytes := hocc.part
  have hroom := hbytes.le
  rw [length_shapes, s.length_bytes] at hroom
  rw [length_shapes,
    show metadata + offset + pre.length * 9 = metadata + (offset + 9 * pre.length) by omega]
    at hbytes
  have hoffset := hrooted.offsets s hmem
  have hparent : ofInt32 s.parentIndex < 2 ^ 32 ∧
      toInt32 (ofInt32 s.parentIndex) = s.parentIndex := by
    rcases hrooted.parents s hmem with h | h <;> rw [h] <;> decide
  have hroot : ¬(pre.length = 0 ∧ s.parentIndex ≠ -1) := by
    rintro ⟨hnil, hne⟩
    refine hne (hrooted.root s ?_)
    rw [length_eq_zero_iff.mp hnil]
    rfl
  have hfigure := hbytes.left.right
  rw [length_leBytes] at hfigure
  have htype := hbytes.right
  rw [length_append, length_leBytes, length_leBytes, add_assoc metadata] at htype
  unfold parseShape
  rw [readU32_of_occurs hbytes.left.left hparent.1, ok_bind, readU32_of_occurs hfigure (by omega),
    ok_bind, u32_eq (by omega), readByte_of_occurs htype, ok_bind, hparent.2, throwIf_eq hroot,
    ok_bind, throwIf_eq (by omega), ok_bind, u32_eq (by omega)]
  rfl

theorem parseShapes_eq
    (hocc : OccursAt g.inputData (metadata + offset)
      (leBytes 4 shapes.length ++ shapes.flatMap Shape.bytes))
    (hsmall : g.inputData.length ≤ 2 ^ 30) (hrooted : Rooted shapes g.nfigures)
    (hfigures : g.nfigures ≤ 2 ^ 26) (hpos : 1 ≤ shapes.length)
    (hfew : shapes.length ≤ 2 ^ 26 + 1) :
    parseShapes g metadata offset =
      .ok { g with nshapes := shapes.length, shapes,
                   metadataSize := offset + 4 + 9 * shapes.length } := by
  have hroom := hocc.le
  rw [length_append, length_leBytes, length_shapes] at hroom
  have hmax : maxAllocSize = 2 ^ 30 - 1 := rfl
  have hentries := hocc.right
  rw [length_leBytes, add_assoc] at hentries
  have hloop : Ends (fun _ => False)
      (forRange (parseShape g metadata) 0 shapes.length (offset + 4, []))
      fun s => s = (offset + 4 + 9 * shapes.length, shapes) := by
    refine .forList (I := fun pre s => s = (offset + 4 + 9 * pre.length, pre)) rfl ?_
    rintro pre s post t hshapes rfl
    rw [hshapes] at hentries hrooted
    rw [parseShape_eq hentries hsmall hrooted hfigures]
    show (_, _) = (_, _)
    rw [length_append, length_singleton]
  obtain ⟨s, hs, rfl⟩ := hloop.exists_ok
  unfold parseShapes checkMetadataBounds inputLen palloc
  rw [throwIf_eq (by omega), ok_bind, readU32_of_occurs hocc.left (by omega), ok_bind,
    throwIf_eq (by omega), ok_bind, u32_eq (n := offset + 4) (by omega),
    u32_eq (n := shapes.length * 9) (by omega), throwIf_eq (by omega), ok_bind,
    if_pos (by omega), ok_bind, hs, ok_bind]
  rfl

end

/-! ### The dimensions -/

/-- The number of points is not mistaken for the beginning of an empty geometry. -/
theorem slice_ne_emptyCoord {input : List UInt8} (h : OccursAt input 6 (leBytes 4 n))
    (hpos : 0 < n) (hn : n < 2 ^ 32) : slice input 6 (6 + 20) ≠ emptyCoord := by
  intro heq
  obtain ⟨pre, post, rfl, hpre⟩ := h
  have htake := congrArg (fun l => leNat (l.take 4)) heq
  have hlen : (leBytes 4 n).length = 4 := length_leBytes 4 n
  simp only [slice] at htake
  rw [drop_take, drop_left' hpre, take_take, show min 4 (6 + 20 - 6) = 4 from rfl, take_left' hlen,
    leNat_leBytes, Nat.mod_eq_of_lt (show n < 256 ^ 4 from hn)] at htake
  have hzero : leNat (emptyCoord.take 4) = 0 := by decide
  omega

section
variable {hasZ hasM : Bool} {d : GeometryData}

theorem readProperties_fixed {code kind : Nat}
    (hcode : (code = 0x0C ∨ code = 0x08) ∧ kind = 1 ∨ (code = 0x14 ∨ code = 0x10) ∧ kind = 2)
    (h : d.geomType = UInt8.ofNat (dimsCode hasZ hasM + code)) :
    readProperties d = fixedType d (dimsCode hasZ hasM + 1) kind := by
  unfold readProperties
  rw [h]
  rcases hcode with ⟨rfl | rfl, rfl⟩ | ⟨rfl | rfl, rfl⟩ <;> cases hasZ <;> cases hasM <;> rfl

theorem readProperties_complex {code : Nat} (hcode : code = 0x04 ∨ code = 0x00)
    (h : d.geomType = UInt8.ofNat (dimsCode hasZ hasM + code))
    (hocc : OccursAt d.inputData 6 (leBytes 4 n)) (hpos : 0 < n) (hn : n < 2 ^ 32) :
    readProperties d = complexType d (dimsCode hasZ hasM + 1) := by
  unfold readProperties
  rw [h]
  have hempty := slice_ne_emptyCoord hocc hpos hn
  rcases hcode with rfl | rfl
  · cases hasZ <;> cases hasM
    · show (if 26 ≤ d.inputLen then _ else _) = _
      split_ifs with hlen
      · rw [readAt_eq hlen, ok_bind, if_neg hempty]
        rfl
      · rfl
    all_goals rfl
  · cases hasZ <;> cases hasM <;> rfl

end

theorem initializeGeometryData_eq (srid : UInt32) (geomClass geomType : UInt8) (rest : List UInt8) :
    initializeGeometryData (leBytes 4 srid.toNat ++ [geomClass, geomType] ++ rest) =
      .ok {
        inputData := leBytes 4 srid.toNat ++ [geomClass, geomType] ++ rest
        srid := toInt32 srid.toNat, npoints := 0, geomClass, geomType, geomName := 0,
        dimensionFlag := 0, hasInvalidCoords := false, hasNpointsData := false, nfigures := 0,
        nshapes := 0, figures := [], shapes := [], metadataSize := 0 } := by
  generalize hinput : leBytes 4 srid.toNat ++ [geomClass, geomType] ++ rest = input
  have hall : OccursAt input 0 (leBytes 4 srid.toNat ++ ([geomClass] ++ [geomType])) :=
    ⟨[], rest, by rw [← hinput]; simp, rfl⟩
  have hbytes := hall.right
  rw [length_leBytes] at hbytes
  have hclass : OccursAt input 4 [geomClass] := hbytes.left
  have htype : OccursAt input 5 [geomType] := hbytes.right
  unfold initializeGeometryData
  rw [readU32_of_occurs hall.left srid.toNat_lt, ok_bind, readByte_of_occurs hclass, ok_bind,
    readByte_of_occurs htype, ok_bind]
  rfl

section
variable (isGeography isValid : Bool) (g : Geometry)

/-- What is known once the dimensions have been read. -/
def readForm : GeometryData :=
  { inputData := clrBytes isGeography isValid g
    srid := toInt32 g.srid.toNat
    npoints := if g.content.isFixed then 0 else g.content.points.length
    geomClass := classByte isGeography isValid
    geomType := g.content.propertiesByte isValid
    geomName := if g.content.isFixed then g.content.kind else 0
    dimensionFlag := dimsCode g.hasZ g.hasM + 1
    hasInvalidCoords := false
    hasNpointsData := !g.content.isFixed
    nfigures := 0
    nshapes := 0
    figures := []
    shapes := []
    metadataSize := 0 }

theorem occurs_clrBytes : OccursAt (clrBytes isGeography isValid g) 0
    (clrBytes isGeography isValid g) :=
  ⟨[], [], by simp, rfl⟩

theorem occurs_data : OccursAt (clrBytes isGeography isValid g) 6 g.content.data := by
  have hdata := (occurs_clrBytes isGeography isValid g).right
  rwa [length_append, length_leBytes] at hdata

theorem initializeGeometryData_clrBytes :
    initializeGeometryData (clrBytes isGeography isValid g) =
      .ok { readForm isGeography isValid g with
        npoints := 0, geomName := 0, dimensionFlag := 0, hasNpointsData := false } := by
  unfold clrBytes
  rw [initializeGeometryData_eq]
  rfl

variable {isValid g} {geo : Bool} {d : GeometryData}

section

variable {hasZ hasM : Bool} (h : d.dimensionFlag = dimsCode hasZ hasM + 1)
include h

theorem hasZ_of_dimsCode : d.hasZ = hasZ := by
  unfold GeometryData.hasZ
  rw [h]
  cases hasZ <;> cases hasM <;> rfl

theorem hasM_of_dimsCode : d.hasM = hasM := by
  unfold GeometryData.hasM
  rw [h]
  cases hasZ <;> cases hasM <;> rfl

end

theorem length_points_of_isFixed (hwf : g.content.WellFormed) (h : g.content.isFixed = true) :
    g.content.points.length = if g.content.kind = 2 then 2 else 1 := by
  obtain ⟨srid, hasZ, hasM, content⟩ := g
  cases content with
  | point p => rfl
  | line ps =>
    have hmin : 2 ≤ ps.length := hwf
    have hmax : ps.length ≤ 2 := of_decide_eq_true h
    show (line ps).points.length = 2
    rw [points_line]
    omega
  | polygon rings | multiPoint ps | multiLine lines => cases h

theorem readProperties_readForm_fixed (h : g.content.isFixed = true)
    (htype : d.geomType = g.content.propertiesByte isValid) :
    readProperties d = fixedType d (dimsCode g.hasZ g.hasM + 1) g.content.kind := by
  obtain ⟨srid, hasZ, hasM, content⟩ := g
  cases content with
  | point p =>
    refine readProperties_fixed (.inl ⟨?_, rfl⟩) htype
    cases isValid <;> simp
  | line ps =>
    have hmax : ps.length ≤ 2 := of_decide_eq_true h
    simp only [propertiesByte, if_pos hmax] at htype
    refine readProperties_fixed (.inr ⟨?_, rfl⟩) htype
    cases isValid <;> simp
  | polygon rings | multiPoint ps | multiLine lines => cases h

theorem propertiesByte_of_not_fixed (isValid : Bool) (h : g.content.isFixed = false) :
    ∃ code, (code = 0x04 ∨ code = 0x00) ∧
      g.content.propertiesByte isValid = UInt8.ofNat (dimsCode g.hasZ g.hasM + code) := by
  obtain ⟨srid, hasZ, hasM, content⟩ := g
  cases content with
  | point p => cases h
  | line ps =>
    have hmax : ¬ps.length ≤ 2 := of_decide_eq_false h
    refine ⟨if isValid then 0x04 else 0x00, ?_, ?_⟩
    · cases isValid <;> simp
    · simp only [propertiesByte, if_neg hmax]
  | polygon rings =>
    refine ⟨if isValid then 0x04 else 0x00, ?_, rfl⟩
    cases isValid <;> simp
  | multiPoint ps | multiLine lines => exact ⟨0x04, .inl rfl, rfl⟩

theorem classByte_cases {isValid : Bool} :
    ¬(classByte geo isValid ≠ 1 ∧ classByte geo isValid ≠ 2) := by
  revert geo isValid
  decide

theorem setDimensionFlag_of_properties {d d' : GeometryData}
    (hclass : ¬(d.geomClass ≠ 1 ∧ d.geomClass ≠ 2)) (hprops : readProperties d = .ok d')
    (hpoints : ¬(d'.hasNpointsData ∧ d'.npoints = 0)) (hinside : CoordinatesInside d') :
    setDimensionFlag d = .ok d' := by
  have hmark : markEmpty d' = d' := if_neg hpoints
  have hcheck : checkCoordinates d' = .ok () := by
    unfold CoordinatesInside at hinside
    rw [checkCoordinates_eq]
    split_ifs at hinside ⊢
    · rw [throwIf_eq (Int.not_lt.mpr hinside.1), ok_bind]
      exact throwIf_eq (not_lt.mpr hinside.2)
    all_goals exact throwIf_eq (not_lt.mpr hinside)
  rw [setDimensionFlag, if_neg hclass, hprops, ok_bind, hmark, hcheck]
  rfl

/-- **The dimensions** of a form of T-SQL are read. -/
theorem setDimensionFlag_clrBytes (hwf : g.content.WellFormed) (hpoints : g.content.points ≠ [])
    (hsmall : (clrBytes geo isValid g).length ≤ 2 ^ 30) :
    (initializeGeometryData (clrBytes geo isValid g) >>= setDimensionFlag) =
      .ok (readForm geo isValid g) := by
  have hdata := occurs_data geo isValid g
  have hlen := length_clrBytes geo isValid g
  have hnpoints : 0 < g.content.points.length := length_pos_iff.mpr hpoints
  have hz : (readForm geo isValid g).hasZ = g.hasZ := hasZ_of_dimsCode rfl
  have hm : (readForm geo isValid g).hasM = g.hasM := hasM_of_dimsCode rfl
  rw [initializeGeometryData_clrBytes, ok_bind]
  cases hfixed : g.content.isFixed with
  | true =>
    have hdataFlag : (readForm geo isValid g).hasNpointsData = false := by
      simp [readForm, hfixed]
    refine setDimensionFlag_of_properties classByte_cases ?_
      (by simp [hdataFlag]) ?_
    · rw [readProperties_readForm_fixed hfixed rfl, fixedType]
      simp only [readForm, hfixed]
      rfl
    · have hname : (readForm geo isValid g).geomName = g.content.kind := by
        simp [readForm, hfixed]
      rw [CoordinatesInside, if_neg (by simp [hdataFlag]), hz, hm, hname,
        ← length_points_of_isFixed hwf hfixed]
      show _ ≤ (clrBytes geo isValid g).length
      rw [hlen, data, if_pos hfixed, length_columns]
  | false =>
    have hdataFlag : (readForm geo isValid g).hasNpointsData = true := by
      simp [readForm, hfixed]
    have hnumber : (readForm geo isValid g).npoints = g.content.points.length := by
      simp [readForm, hfixed]
    have hwhole := length_data g.content hfixed
    have hmul := mul_stride g.content.points.length g.hasZ g.hasM
    have hn : g.content.points.length < 2 ^ 31 := by omega
    have hint : toInt32 g.content.points.length = g.content.points.length := if_pos hn
    obtain ⟨code, hcode, htype⟩ := propertiesByte_of_not_fixed isValid hfixed
    rw [data, if_neg (by simp [hfixed])] at hdata
    refine setDimensionFlag_of_properties classByte_cases ?_
      (by rw [hnumber]; omega) ?_
    · rw [readProperties_complex hcode htype hdata.left.left hnpoints (by omega), complexType]
      show (readU32 (clrBytes geo isValid g) 6 >>= _) = _
      rw [readU32_of_occurs hdata.left.left (by omega), ok_bind]
      simp only [readForm, hfixed, hint]
      rfl
    · rw [CoordinatesInside, if_pos hdataFlag, hz, hm, hnumber]
      show 0 ≤ _ ∧ _ ≤ (clrBytes geo isValid g).length
      rw [hlen, hwhole, Int.toNat_natCast]
      omega

end

/-! ### What the tables say -/

section
variable {d : GeometryData} {n : Nat} {α : Type} {figureAttribute : Nat → UInt8}
  {runs : List (List α)}

section

variable (hfigures : d.figures = runFigures figureAttribute runs) (hn : n = runs.flatten.length)
include hfigures hn

theorem figureStart_eq : d.figureStart n i = (runs.take i).flatten.length := by
  unfold figureStart
  rw [hfigures]
  by_cases hi : i < runs.length
  · rw [runFigures_getElem? hi]
  · rw [getElem?_eq_none (by rw [length_runFigures]; omega), take_of_length_le (by omega)]
    exact hn

theorem figureStart_sub {pre post : List (List α)} {run : List α}
    (hruns : runs = pre ++ run :: post) :
    d.figureStart n pre.length = pre.flatten.length ∧
      d.figureStart n (pre.length + 1) - d.figureStart n pre.length = run.length := by
  rw [figureStart_eq hfigures hn, figureStart_eq hfigures hn, hruns, take_left,
    take_length_add_append]
  refine ⟨rfl, ?_⟩
  rw [flatten_append, length_append, take_succ_cons, take_zero, flatten_singleton]
  omega

end

theorem validateLinestringFigures_eq (hfigures : d.figures = runFigures (fun _ => 0x01) runs)
    (hcount : d.nfigures = runs.length) : validateLinestringFigures d = .ok () := by
  have hloop : Ends (fun _ => False) (validateLinestringFigures d) fun _ => True := by
    refine .forCount (I := fun _ _ => True) trivial fun i _ hi _ => ?_
    refine (Ends.elemAt (by rw [hfigures, length_runFigures]; omega)).bind fun f hf => ?_
    rw [hfigures, runFigures_getElem? (by omega)] at hf
    cases hf
    exact trivial
  obtain ⟨u, hu, -⟩ := hloop.exists_ok
  exact hu

theorem validatePolygonFigures_eq (hfigures : d.figures = runFigures figureAttribute runs)
    (hattr : ∀ i, figureAttribute i = 2 ∨ figureAttribute i = 0) (hfig : Figures d n)
    (hn : n = runs.flatten.length) (hsmall : n < 2 ^ 32) (hrings : ∀ ring ∈ runs, 4 ≤ ring.length) :
    validatePolygonFigures d n = .ok () := by
  have hcount : d.nfigures = runs.length := by rw [← hfig.length, hfigures, length_runFigures]
  have hloop : Ends (fun _ => False) (forRange (validateRing d n) 0 d.nfigures 0)
      fun total => total = n := by
    rw [hcount]
    have hlast := hfig.last
    rw [hcount] at hlast
    refine (Ends.forList (l := runs) (I := fun pre total => total = d.figureStart n pre.length)
      hfig.first.symm ?_).mono fun total htotal => htotal.trans hlast
    rintro pre ring post total hruns rfl
    have hi : pre.length < d.nfigures := by
      rw [hcount, hruns, length_append, length_cons]
      omega
    have hsub := (figureStart_sub hfigures hn hruns).2
    have hle := hfig.start_le (show pre.length + 1 ≤ d.nfigures from hi)
    have hring := hrings ring (by simp [hruns])
    refine (Ends.elemAt (by rw [hfig.length]; exact hi)).bind fun f hf => ?_
    rw [hfigures, runFigures_getElem? (by omega)] at hf
    cases hf
    rw [throwIf_eq (by rcases hattr pre.length with h | h <;> simp [h]), ok_bind,
      hfig.ringPoints_eq hsmall hi, ok_bind, hsub, throwIf_eq (by omega), ok_bind]
    show u32 _ = _
    rw [u32_eq (by omega), length_append, length_singleton]
    omega
  obtain ⟨total, htotal, rfl⟩ := hloop.exists_ok
  rw [validatePolygonFigures, htotal, ok_bind, throwIf_eq (by simp)]

theorem multiShapes_getElem? {rootType childType : UInt8} (hi : i < count) :
    (multiShapes rootType childType count)[i + 1]? = some ⟨0, i, childType⟩ := by
  unfold multiShapes
  rw [getElem?_cons_succ, getElem?_map, getElem?_range hi]
  rfl

section

variable {rootType childType : UInt8}
  (hshapes : d.shapes = multiShapes rootType childType d.nfigures)
include hshapes

theorem validateMultiFigures_eq (hcount : d.nshapes = d.nfigures + 1)
    (hchild : childType = 1 ∨ childType = 2) (hstrokes : validateLinestringFigures d = .ok ()) :
    validateMultiFigures d n childType = .ok () := by
  have hloop : Ends (fun _ => False)
      (forRange (fun i _ => validateChild d childType i) 1 (d.nshapes - 1) ()) fun _ => True := by
    refine .forRange (I := fun _ _ => True) trivial fun i _ hpos hi _ => ?_
    obtain ⟨j, rfl⟩ : ∃ j, i = j + 1 := ⟨i - 1, by omega⟩
    refine (Ends.elemAt (by rw [hshapes, length_multiShapes]; omega)).bind fun s hs => ?_
    rw [hshapes, multiShapes_getElem? (by omega)] at hs
    cases hs
    rw [throwIf_eq (by simp), ok_bind, throwIf_eq (by simp), ok_bind]
    rw [throwIf_eq (show ¬j ≥ d.nfigures by omega)]
    exact trivial
  obtain ⟨u, hu, -⟩ := hloop.exists_ok
  unfold validateMultiFigures
  rw [hu, ok_bind]
  rcases hchild with rfl | rfl <;> exact hstrokes

/-- **The points of a part**: those of the figure with the same number. -/
theorem getChildInfo_eq (h : Tabled d n) (hi : i < d.nfigures) :
    getChildInfo d (i + 1) =
      .ok (d.figureStart n i, d.figureStart n (i + 1) - d.figureStart n i) := by
  have hw := h.columns.no_wrap
  have hcount : d.nshapes = d.nfigures + 1 := by rw [← h.shapes, hshapes, length_multiShapes]
  have hshape : ∀ j < d.nfigures, (elemAt d.shapes (j + 1) : Checked Shape) =
      .ok ⟨0, j, childType⟩ := by
    intro j hj
    unfold elemAt
    rw [hshapes, multiShapes_getElem? hj]
  have hend : childFigEnd d (i + 1) = .ok (i + 1) := by
    unfold childFigEnd
    split_ifs
    · rw [hshape (i + 1) (by omega)]
      rfl
    · rw [show d.nfigures = i + 1 by omega]
  have hptEnd : childPtEnd d (i + 1) = .ok (d.figureStart n (i + 1)) := by
    unfold childPtEnd
    by_cases hlast : i + 1 < d.nfigures
    · obtain ⟨figure, hfigure, hstart⟩ := h.figures.elemAt_eq hlast
      rw [if_pos hlast, hfigure, ok_bind, hstart]
      rfl
    · rw [if_neg hlast, show i + 1 = d.nfigures by omega, h.figures.last, h.ofInt32_npoints]
  obtain ⟨figure, hfigure, hstart⟩ := h.figures.elemAt_eq hi
  have hgrows := h.figures.grows i hi
  have hle := h.figures.start_le (show i + 1 ≤ d.nfigures from hi)
  unfold getChildInfo
  rw [hshape i hi, ok_bind, throwIf_eq (by dsimp only; omega), ok_bind]
  rw [hfigure, ok_bind, hend, ok_bind, hptEnd, ok_bind, hstart, sub32_eq (by omega) (by omega)]
  rfl

end

end

/-! ### The tables of a geometry -/

theorem length_runs_le {α : Type} {runs : List (List α)} (h : ∀ run ∈ runs, run ≠ []) :
    runs.length ≤ runs.flatten.length := by
  rw [length_flatten]
  simpa using length_le_sum_of_one_le (runs.map length) (by simpa [Nat.one_le_iff_ne_zero] using h)

theorem rooted_multiShapes (rootType childType : UInt8) (h : 1 ≤ count) :
    Rooted (multiShapes rootType childType count) count := by
  refine ⟨forall_mem_cons.mpr ⟨.inl rfl, ?_⟩, ?_, forall_mem_cons.mpr ⟨h, ?_⟩⟩
  · exact forall_mem_map.mpr fun i _ => .inr rfl
  · intro s hs
    cases hs
    rfl
  · exact forall_mem_map.mpr fun i hi => mem_range.mp hi

section
variable {hasZ hasM : Bool} {c : Content hasZ hasM}

theorem rooted_shapes (h : 1 ≤ c.runs.length) :
    Rooted c.shapes c.runs.length ∧ 1 ≤ c.shapes.length ∧
      c.shapes.length ≤ c.runs.length + 1 := by
  have hsingle : ∀ type : UInt8, Rooted [⟨-1, 0, type⟩] c.runs.length := by
    intro type
    exact ⟨by simp, by simp, by simpa using lt_of_lt_of_le Nat.zero_lt_one h⟩
  cases c with
  | point p | line ps | polygon rings => exact ⟨hsingle _, le_rfl, Nat.le_add_left _ _⟩
  | multiPoint ps =>
    have hlen : (multiPoint ps).runs.length = ps.length := length_map _
    rw [hlen] at h ⊢
    refine ⟨rooted_multiShapes 4 1 h, ?_⟩
    rw [show (multiPoint ps).shapes = multiShapes 4 1 ps.length from rfl, length_multiShapes]
    omega
  | multiLine lines =>
    refine ⟨rooted_multiShapes 5 2 h, ?_⟩
    rw [show (multiLine lines).shapes = multiShapes 5 2 lines.length from rfl, length_multiShapes]
    exact ⟨by omega, le_rfl⟩

theorem figureAttribute_le : c.figureAttribute i ≤ 2 := by
  cases c with
  | polygon rings =>
    show (if i = 0 then (2 : UInt8) else 0) ≤ 2
    split <;> decide
  | point p | line ps | multiPoint ps | multiLine lines => exact (by decide : (1 : UInt8) ≤ 2)

theorem resolveType_eq {d : GeometryData} (hwf : c.WellFormed) (hfixed : c.isFixed = false)
    (hfigures : d.figures = c.figures) (hshapes : d.shapes = c.shapes)
    (htabled : Tabled d c.points.length) :
    resolveType d c.points.length = .ok { d with geomName := c.kind } := by
  have hw := htabled.columns.no_wrap
  have hcount : d.nfigures = c.runs.length := by
    rw [← htabled.figures.length, hfigures]
    exact length_runFigures _
  have hnshapes : d.nshapes = c.shapes.length := by rw [← htabled.shapes, hshapes]
  unfold resolveType
  rw [hshapes]
  cases c with
  | point p => cases hfixed
  | line ps =>
    rw [validateLinestringFigures_eq hfigures hcount]
    rfl
  | polygon rings =>
    have hattr : ∀ i, (if i = 0 then (2 : UInt8) else 0) = 2 ∨
        (if i = 0 then (2 : UInt8) else 0) = 0 := by
      intro i
      by_cases hi : i = 0
      · exact .inl (if_pos hi)
      · exact .inr (if_neg hi)
    rw [validatePolygonFigures_eq hfigures hattr htabled.figures rfl (by omega) hwf]
    rfl
  | multiPoint ps =>
    have hlen : d.nfigures = ps.length := hcount.trans (length_map _)
    have hchildren : d.shapes = multiShapes 4 1 d.nfigures := by rw [hshapes, hlen]; rfl
    rw [validateMultiFigures_eq hchildren (by rw [hnshapes, hlen]; exact length_multiShapes 4 1 _)
      (.inl rfl) (validateLinestringFigures_eq hfigures hcount)]
    rfl
  | multiLine lines =>
    have hlen : d.nfigures = lines.length := hcount
    have hchildren : d.shapes = multiShapes 5 2 d.nfigures := by rw [hshapes, hlen]; rfl
    rw [validateMultiFigures_eq hchildren (by rw [hnshapes, hlen]; exact length_multiShapes 5 2 _)
      (.inr rfl) (validateLinestringFigures_eq hfigures hcount)]
    rfl

end

/-- What is known once the tables have been read. -/
def tabledForm (isGeography isValid : Bool) (g : Geometry) : GeometryData :=
  { readForm isGeography isValid g with
    geomName := g.content.kind
    nfigures := g.content.runs.length
    figures := g.content.figures
    nshapes := g.content.shapes.length
    shapes := g.content.shapes
    metadataSize := 8 + 5 * g.content.runs.length + 9 * g.content.shapes.length }

/-- A geometry with points whose form of T-SQL has tables and is not too large. -/
structure NeedsTables (isGeography isValid : Bool) (g : Geometry) : Prop where
  wellFormed : g.content.WellFormed
  points : g.content.points ≠ []
  tables : g.content.isFixed = false
  small : (clrBytes isGeography isValid g).length ≤ 2 ^ 30

namespace NeedsTables

variable {geo isValid : Bool} {g : Geometry}

section

variable (h : NeedsTables geo isValid g)
include h

theorem length_eq :
    (clrBytes geo isValid g).length =
      10 + g.content.points.length * stride g.hasZ g.hasM +
        (8 + 5 * g.content.runs.length + 9 * g.content.shapes.length) := by
  rw [length_clrBytes, length_data g.content h.tables]
  omega

theorem occurs_columns : OccursAt (clrBytes geo isValid g) 10 (columns g.content.points) := by
  have hdata := occurs_data geo isValid g
  rw [data, if_neg (by simp [h.tables])] at hdata
  have hright := hdata.left.right
  rwa [length_leBytes] at hright

theorem occurs_tables :
    OccursAt (clrBytes geo isValid g)
      (10 + g.content.points.length * stride g.hasZ g.hasM)
      (tableBytes g.content.figures g.content.shapes) := by
  have hdata := occurs_data geo isValid g
  rw [data, if_neg (by simp [h.tables])] at hdata
  have hright := hdata.right
  rwa [length_append, length_leBytes, length_columns, ← add_assoc] at hright

end

theorem hasZ_eq (geo isValid : Bool) (g : Geometry) : (tabledForm geo isValid g).hasZ = g.hasZ :=
  hasZ_of_dimsCode rfl

theorem hasM_eq (geo isValid : Bool) (g : Geometry) : (tabledForm geo isValid g).hasM = g.hasM :=
  hasM_of_dimsCode rfl

section

variable (h : NeedsTables geo isValid g)
include h

theorem runs_le : 1 ≤ g.content.runs.length ∧ g.content.runs.length ≤ g.content.points.length := by
  refine ⟨?_, length_runs_le h.wellFormed.run_ne_nil⟩
  by_contra hzero
  refine h.points ?_
  rw [Content.points, length_eq_zero_iff.mp (show g.content.runs.length = 0 by omega)]
  rfl

theorem ascending : Ascending g.content.figures g.content.points.length :=
  ascending_runFigures h.wellFormed.run_ne_nil

theorem tabled : Tabled (tabledForm geo isValid g) g.content.points.length where
  hasData := by simp [tabledForm, readForm, h.tables]
  npoints := by simp [tabledForm, readForm, h.tables]
  columns := by
    rw [hasZ_eq, hasM_eq]
    refine ⟨?_, h.small⟩
    show _ ≤ (clrBytes geo isValid g).length
    rw [h.length_eq]
    omega
  figures := h.ascending.figures (length_runFigures _) h.runs_le.1
  few := h.runs_le.2
  shapes := rfl
  root := (rooted_shapes h.runs_le.1).2.1
  size := rfl
  inside := by
    rw [hasZ_eq, hasM_eq]
    show _ ≤ (clrBytes geo isValid g).length
    rw [h.length_eq]
    exact le_rfl

/-- **The tables** of a form of T-SQL are read. -/
theorem parseFiguresAndShapes_clrBytes :
    parseFiguresAndShapes (readForm geo isValid g) =
      .ok (tabledForm geo isValid g) := by
  have htabled := h.tabled
  have hw := htabled.columns.no_wrap
  have hint : ofInt32 (readForm geo isValid g).npoints = g.content.points.length :=
    htabled.ofInt32_npoints
  have hmeta : (readForm geo isValid g).metadata =
      10 + g.content.points.length * stride g.hasZ g.hasM := by
    rw [hasZ_eq, hasM_eq] at hw
    rw [metadata, hint, hasZ_of_dimsCode rfl, hasM_of_dimsCode rfl, u32_eq (by omega)]
  have htables := h.occurs_tables
  have hruns := h.runs_le
  obtain ⟨hrooted, hroot, hfew⟩ := rooted_shapes hruns.1
  have hfigures : g.content.figures.length = g.content.runs.length := length_runFigures _
  have hparse := parseFigures_eq (g := readForm geo isValid g) htables h.ascending
    (forall_mem_map.mpr fun i _ => figureAttribute_le) (by omega) (by omega) hw.2.2
  have hshapes : OccursAt (clrBytes geo isValid g)
      (10 + g.content.points.length * stride g.hasZ g.hasM + (4 + 5 * g.content.figures.length))
      (leBytes 4 g.content.shapes.length ++ g.content.shapes.flatMap Shape.bytes) := by
    rw [tableBytes, append_assoc] at htables
    have hright := htables.right
    rwa [length_append, length_leBytes, length_figures,
      mul_comm g.content.figures.length 5] at hright
  unfold parseFiguresAndShapes
  rw [hint, hmeta, hparse, ok_bind]
  rw [parseShapes_eq hshapes h.small (by dsimp only; rwa [hfigures]) (by dsimp only; omega) hroot
    (by omega), ok_bind]
  rw [hint]
  have hnamed := htabled.named 0
  have hform : ({ tabledForm geo isValid g with geomName := 0 } : GeometryData) =
      { readForm geo isValid g with
        nfigures := g.content.figures.length, figures := g.content.figures,
        nshapes := g.content.shapes.length, shapes := g.content.shapes,
        metadataSize := 4 + 5 * g.content.figures.length + 4 + 9 * g.content.shapes.length } := by
    have hsize : 8 + 5 * g.content.runs.length + 9 * g.content.shapes.length =
        4 + 5 * g.content.runs.length + 4 + 9 * g.content.shapes.length := by omega
    simp only [tabledForm, readForm, h.tables, hfigures, hsize]
    rfl
  rw [hform] at hnamed
  rw [resolveType_eq h.wellFormed h.tables rfl rfl hnamed, ← hform]
  rfl

end

end NeedsTables

end Babelfish.Common.Spatial
