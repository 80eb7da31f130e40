import Babelfish.Common.SpatialCopy

/-!
# No access outside

Whatever counts and offsets the binary form declares, the conversion to the form of PostGIS reads
only bytes of the input and writes only bytes of the result, or it raises an error.  The checks that
this rests on are made in different functions: the coordinates are inside the input
(`set_dimension_flag`), the figures are in order and below the number of points
(`parse_figures_and_shapes`), and the size of the parts is summed up in 64 bits
(`handle_multi_to_postgis`).

* `Placed`: what is known once the dimensions have been read; `setDimensionFlag_ends`.
* `Tabled`: what is known once the tables have been read; `parseFiguresAndShapes_ends`.
* `convertGeometry_ends`: the result has room for what is written.
* `fromBytea_inside`: no input makes the two functions leave their blocks.
-/

namespace Babelfish.Common.Spatial

open Lib List GeometryData

variable {i metadata pos : Nat} {α : Type} {Q : α → Prop} {input : List UInt8}

/-- An error of the code, not an access outside. -/
def Raised (e : MemFault String) : Prop :=
  e ≠ .outOfBounds

theorem raised_raised (text : String) : Raised (.raised text) := by
  intro h
  cases h

theorem raise_ends {text : String} : Ends Raised (raise text) Q :=
  raised_raised text

theorem throwIf_ends {c : Prop} [Decidable c] : Ends Raised (throwIf c) fun _ => ¬c := by
  refine .ite (fun _ => raise_ends) fun hc => ?_
  exact hc

section
variable {E : MemFault String → Prop} {bs : List UInt8}

theorem readByte_ends (h : pos + 1 ≤ bs.length) : Ends E (readByte bs pos) fun _ => True := by
  unfold readByte
  rw [readAt_eq h]
  trivial

theorem readU32_ends (h : pos + 4 ≤ bs.length) : Ends E (readU32 bs pos) fun n => n < 2 ^ 32 := by
  unfold readU32
  rw [readAt_eq h]
  have hlt := leNat_lt (slice bs pos (pos + 4))
  rwa [length_slice_add h] at hlt

end

variable (junk : Nat → UInt8)

theorem palloc_ends (size : Nat) : Ends Raised (palloc junk size) fun _ => size ≤ maxAllocSize := by
  exact .ite (fun h => h) fun _ => raise_ends

/-! ### The dimensions -/

/-- What is known once the dimensions have been read. -/
inductive Placed (g : GeometryData) : Prop
  | empty (hflag : g.dimensionFlag = 0)
  | complex (n : Nat) (hdata : g.hasNpointsData = true) (hname : g.geomName = 0)
      (hn : g.npoints = n) (hcol : Columns g.inputData 10 n g.hasZ g.hasM)
  | point (hdata : g.hasNpointsData = false) (hname : g.geomName = 1)
      (hcol : Columns g.inputData 6 1 g.hasZ g.hasM)
  | line (hdata : g.hasNpointsData = false) (hname : g.geomName = 2)
      (hcol : Columns g.inputData 6 2 g.hasZ g.hasM)

theorem checkCoordinates_eq {g : GeometryData} :
    checkCoordinates g =
      if g.hasNpointsData then do
        throwIf (g.npoints < 0)
        throwIf (10 + g.npoints.toNat * stride g.hasZ g.hasM > g.inputLen)
      else
        throwIf (6 + (if g.geomName = 2 then 2 else 1) * stride g.hasZ g.hasM > g.inputLen) := by
  unfold checkCoordinates hasZ hasM
  generalize g.dimensionFlag = flag
  match flag with
  | 0 | 1 | 2 | 3 | 4 => rfl
  | n + 5 => simp [stride]

/-- The kinds of data that the properties byte can name. -/
def Kinded (g : GeometryData) : Prop :=
  g.dimensionFlag = 0 ∨ (g.hasNpointsData = true ∧ g.geomName = 0) ∨
    (g.hasNpointsData = false ∧ (g.geomName = 1 ∨ g.geomName = 2))

section
variable {g : GeometryData} {n : Nat}

theorem complexType_ends (hlen : 22 ≤ g.inputData.length) (hname : g.geomName = 0) (flag : Nat) :
    Ends Raised (complexType g flag) fun g' => g'.inputData = g.inputData ∧ Kinded g' := by
  refine (readU32_ends (by omega)).bind fun n _ => ?_
  exact ⟨rfl, .inr (.inl ⟨rfl, hname⟩)⟩

theorem fixedType_ends (hdata : g.hasNpointsData = false) (flag : Nat) {name : Nat}
    (hname : name = 1 ∨ name = 2) :
    Ends Raised (fixedType g flag name) fun g' => g'.inputData = g.inputData ∧ Kinded g' :=
  ⟨rfl, .inr (.inr ⟨hdata, hname⟩)⟩

theorem readProperties_ends (hlen : 22 ≤ g.inputData.length) (hname : g.geomName = 0)
    (hdata : g.hasNpointsData = false) :
    Ends Raised (readProperties g) fun g' => g'.inputData = g.inputData ∧ Kinded g' := by
  have hcomplex := complexType_ends hlen hname
  unfold readProperties
  split
  · refine .ite (fun h26 => ?_) fun _ => hcomplex 1
    rw [readAt_eq h26, ok_bind]
    refine .ite (fun _ => ?_) fun _ => hcomplex 1
    exact ⟨rfl, .inl rfl⟩
  all_goals first
    | exact hcomplex _
    | exact fixedType_ends hdata _ (.inl rfl)
    | exact fixedType_ends hdata _ (.inr rfl)
    | exact raise_ends

/-- The coordinates that the data is said to have are inside the input. -/
def CoordinatesInside (g : GeometryData) : Prop :=
  if g.hasNpointsData then
    0 ≤ g.npoints ∧ 10 + g.npoints.toNat * stride g.hasZ g.hasM ≤ g.inputData.length
  else 6 + (if g.geomName = 2 then 2 else 1) * stride g.hasZ g.hasM ≤ g.inputData.length

theorem checkCoordinates_ends : Ends Raised (checkCoordinates g) fun _ => CoordinatesInside g := by
  rw [checkCoordinates_eq]
  unfold CoordinatesInside
  split_ifs
  · refine throwIf_ends.bind fun _ hneg => throwIf_ends.mono fun _ hle => ?_
    exact ⟨Int.not_lt.mp hneg, Nat.le_of_not_lt hle⟩
  all_goals exact throwIf_ends.mono fun _ hle => Nat.le_of_not_lt hle

/-- **The dimensions**: the coordinates that the data is said to have are inside the input. -/
theorem setDimensionFlag_ends (hlen : 22 ≤ g.inputData.length)
    (hsmall : g.inputData.length ≤ 2 ^ 30) (hname : g.geomName = 0)
    (hdata : g.hasNpointsData = false) :
    Ends Raised (setDimensionFlag g) fun g' => g'.inputData = g.inputData ∧ Placed g' := by
  refine .ite (fun _ => raise_ends) fun _ => ?_
  refine (readProperties_ends hlen hname hdata).bind ?_
  rintro g' ⟨hinput, hkind⟩
  rw [← hinput] at hsmall
  refine checkCoordinates_ends.bind fun _ hinside => ?_
  by_cases hzero : g'.hasNpointsData = true ∧ g'.npoints = 0
  · have hmark : markEmpty g' = { g' with dimensionFlag := 0 } := if_pos hzero
    rw [hmark]
    exact ⟨hinput, .empty rfl⟩
  · have hmark : markEmpty g' = g' := if_neg hzero
    rw [hmark] at hinside ⊢
    refine ⟨hinput, ?_⟩
    unfold CoordinatesInside at hinside
    rcases hkind with hflag | ⟨hdata', hname'⟩ | ⟨hdata', hname' | hname'⟩
    · exact .empty hflag
    · rw [if_pos hdata'] at hinside
      exact .complex g'.npoints.toNat hdata' hname' (Int.toNat_of_nonneg hinside.1).symm
        ⟨hinside.2, hsmall⟩
    · rw [if_neg (by simp [hdata']), if_neg (by omega)] at hinside
      exact .point hdata' hname' ⟨hinside, hsmall⟩
    · rw [if_neg (by simp [hdata']), if_pos hname'] at hinside
      exact .line hdata' hname' ⟨hinside, hsmall⟩

/-! ### The checks of coordinates -/

theorem findInvalid_ends (hsmall : input.length ≤ 2 ^ 30) {count : Nat}
    (h : pos + count * 8 ≤ input.length) :
    Ends Raised (findInvalid input count pos) fun _ => True := by
  induction count generalizing pos with
  | zero => trivial
  | succ count ih =>
    unfold findInvalid
    rw [readAt_eq (by omega), ok_bind]
    refine .ite (fun _ => trivial) fun _ => ?_
    refine ih ?_
    rw [u32_eq (by omega)]
    omega

theorem Placed.invalid (h : Placed g) : Placed { g with hasInvalidCoords := true } := by
  cases h with
  | empty hflag => exact .empty hflag
  | complex n hdata hname hn hcol => exact .complex n hdata hname hn hcol
  | point hdata hname hcol => exact .point hdata hname hcol
  | line hdata hname hcol => exact .line hdata hname hcol

theorem Placed.checked (h : Placed g) (hflag : g.dimensionFlag ≠ 0) :
    (checkedCoordinates g).1 + (toInt32 (checkedCoordinates g).2).toNat * 8 ≤
        g.inputData.length ∧ g.inputData.length ≤ 2 ^ 30 := by
  cases h with
  | empty hzero => exact absurd hzero hflag
  | complex n hdata hname hn hcol =>
    have hw := hcol.no_wrap
    have hin := hcol.inside
    have hmul := mul_stride n g.hasZ g.hasM
    refine ⟨?_, hcol.small⟩
    rw [checkedCoordinates, if_pos (by omega), if_pos hdata, hn, ofInt32_natCast (by omega),
      u32_eq (by omega), toInt32, if_pos (by omega)]
    omega
  | point hdata hname hcol =>
    have hin := hcol.inside
    have hst := (stride_bounds g.hasZ g.hasM).1
    refine ⟨?_, hcol.small⟩
    rw [checkedCoordinates, if_neg (by simp [hname])]
    show 6 + 2 * 8 ≤ _
    omega
  | line hdata hname hcol =>
    have hin := hcol.inside
    have hst := (stride_bounds g.hasZ g.hasM).1
    refine ⟨?_, hcol.small⟩
    rw [checkedCoordinates, if_pos (by omega), if_neg (by simp [hdata])]
    show 6 + 4 * 8 ≤ _
    omega

theorem checkNanUnlessEmpty_ends (h : Placed g) :
    Ends Raised (checkNanUnlessEmpty g) fun g' => g'.inputData = g.inputData ∧ Placed g' := by
  refine .ite (fun hflag => ?_) fun _ => ⟨rfl, h⟩
  obtain ⟨hin, hsmall⟩ := h.checked hflag
  refine (findInvalid_ends hsmall hin).bind fun found _ => ?_
  cases found with
  | false => exact ⟨rfl, h⟩
  | true => exact ⟨rfl, h.invalid⟩

/-- All points whose latitude is looked at are inside. -/
def LatitudesInside (g : GeometryData) : Prop :=
  g.dimensionFlag ≠ 0 → (checkedPoints g).2 + (checkedPoints g).1 * 16 ≤ g.inputData.length ∧
    g.inputData.length ≤ 2 ^ 30

theorem validateLatitudeUnlessEmpty_ends (h : LatitudesInside g) :
    Ends Raised (validateLatitudeUnlessEmpty g) fun _ => True := by
  unfold validateLatitudeUnlessEmpty validateGeographyLatitudeBytes
  -- The table of SRIDs stays folded.
  generalize isValidGeographySrid g.srid = valid
  refine .ite (fun hflag => .ite (fun _ => ?_) fun _ => raise_ends) fun _ => trivial
  obtain ⟨hin, hsmall⟩ := h hflag
  refine .forCount (I := fun _ _ => True) trivial fun i _ hi _ => ?_
  simp (disch := omega) only [u32_eq]
  unfold validateLatitude
  rw [readAt_eq (by omega), ok_bind, readAt_eq (by omega), ok_bind]
  exact .ite (fun _ => raise_ends) fun _ => trivial

/-! ### The tables -/

/-- Figures that begin at the first point and go up, below `n`. -/
structure Ascending (figures : List Figure) (n : Nat) : Prop where
  below : ∀ f ∈ figures, f.pointOffset < n
  first : ∀ f, figures[0]? = some f → f.pointOffset = 0
  grows : ∀ (i : Nat) (a b : Figure), figures[i]? = some a → figures[i + 1]? = some b →
    a.pointOffset < b.pointOffset

theorem Ascending.nil (n : Nat) : Ascending [] n :=
  ⟨by simp, by simp, by simp⟩

theorem Ascending.push {figures : List Figure} (h : Ascending figures n) {f : Figure}
    (hbelow : f.pointOffset < n) (hfirst : figures.length = 0 → f.pointOffset = 0)
    (hlast : ∀ a, figures.getLast? = some a → a.pointOffset < f.pointOffset) :
    Ascending (figures ++ [f]) n := by
  refine ⟨forall_mem_append.mpr ⟨h.below, forall_mem_singleton.mpr hbelow⟩, ?_, ?_⟩
  · intro a ha
    by_cases hempty : figures.length = 0
    · rw [length_eq_zero_iff.mp hempty] at ha
      obtain rfl : f = a := by simpa using ha
      exact hfirst hempty
    · rw [getElem?_append_left (by omega)] at ha
      exact h.first a ha
  · intro i a b ha hb
    have hi : i + 1 < (figures ++ [f]).length := (List.getElem?_eq_some_iff.mp hb).1
    rw [length_append, length_singleton] at hi
    rw [getElem?_append_left (by omega)] at ha
    by_cases hend : i + 1 < figures.length
    · rw [getElem?_append_left hend] at hb
      exact h.grows i a b ha hb
    · rw [getElem?_append_right (by omega), show i + 1 - figures.length = 0 by omega] at hb
      obtain rfl : f = b := by simpa using hb
      refine hlast a ?_
      rwa [getLast?_eq_getElem?, show figures.length - 1 = i by omega]

theorem checkIncreasing_ends {figures : List Figure} (hi : i = figures.length) (pointOffset : Nat) :
    Ends Raised (checkIncreasing figures i pointOffset) fun _ =>
      ∀ a, figures.getLast? = some a → a.pointOffset < pointOffset := by
  refine .ite (fun hpos => ?_) fun hzero => ?_
  · refine (Ends.elemAt (by omega)).bind fun last hlast => throwIf_ends.mono ?_
    intro _ hlt a ha
    rw [getLast?_eq_getElem?, ← hi, hlast] at ha
    cases ha
    exact Nat.lt_of_not_le hlt
  · intro a ha
    rw [length_eq_zero_iff.mp (show figures.length = 0 by omega)] at ha
    cases ha

theorem Ascending.figures (h : Ascending g.figures n)
    (hlen : g.figures.length = g.nfigures) (hpos : 1 ≤ g.nfigures) : Figures g n := by
  refine ⟨hlen, hpos, ?_, ?_⟩
  · have hget := getElem?_eq_getElem (show 0 < g.figures.length by omega)
    rw [figureStart, hget]
    exact h.first _ hget
  · intro i hi
    have hget := getElem?_eq_getElem (show i < g.figures.length by omega)
    unfold figureStart
    rw [hget]
    cases hnext : g.figures[i + 1]? with
    | none => exact h.below _ (getElem_mem _)
    | some b => exact h.grows i _ b hget hnext

section

variable (hsmall : g.inputData.length ≤ 2 ^ 30) {offset : Nat}
include hsmall

theorem parseFigure_ends {s : Nat × List Figure}
    (hroom : metadata + 4 + 5 * (i + 1) ≤ g.inputData.length)
    (hoff : s.1 = 4 + 5 * i) (hlen : s.2.length = i) (hasc : Ascending s.2 n) :
    Ends Raised (parseFigure g n metadata i s) fun t =>
      t.1 = 4 + 5 * (i + 1) ∧ t.2.length = i + 1 ∧ Ascending t.2 n := by
  refine (readByte_ends (by omega)).bind fun kind _ => ?_
  refine (readU32_ends (by omega)).bind fun pointOffset _ => ?_
  refine throwIf_ends.bind fun _ _ => throwIf_ends.bind fun _ hzero => ?_
  refine throwIf_ends.bind fun _ hbelow => ?_
  refine (checkIncreasing_ends hlen.symm pointOffset).bind fun _ hlast => ?_
  refine ⟨?_, ?_, hasc.push (Nat.lt_of_not_le hbelow) ?_ hlast⟩
  · show u32 (s.1 + 5) = _
    rw [hoff, u32_eq (by omega)]
    omega
  · show (s.2 ++ [_]).length = _
    rw [length_append, hlen]
    rfl
  · intro hempty
    by_contra hne
    exact hzero ⟨by omega, hne⟩

theorem parseFigures_ends (hn : n ≤ 2 ^ 26) :
    Ends Raised (parseFigures g n metadata) fun t =>
      ∃ (nfigures : Nat) (figures : List Figure),
        t.1 = { g with nfigures, figures } ∧ t.2 = 4 + 5 * nfigures ∧ nfigures ≤ n ∧
        Figures t.1 n := by
  refine throwIf_ends.bind fun _ hroom => ?_
  have hroom' : metadata + 0 + 4 ≤ g.inputData.length := Nat.le_of_not_lt hroom
  refine (readU32_ends (by omega)).bind fun nfigures _ => ?_
  refine throwIf_ends.bind fun _ hcount => throwIf_ends.bind fun _ hroom => ?_
  rw [not_or, Nat.not_lt, Nat.not_lt] at hcount
  rw [u32_eq (by omega)] at hroom
  have hroom' : metadata + 4 + nfigures * 5 ≤ g.inputData.length := Nat.le_of_not_lt hroom
  refine (palloc_ends _ _).bind fun _ _ => ?_
  refine (Ends.forCount (I := fun i (s : Nat × List Figure) =>
    s.1 = 4 + 5 * i ∧ s.2.length = i ∧ Ascending s.2 n) ⟨rfl, rfl, .nil n⟩ ?_).bind ?_
  · intro i s hi hs
    exact parseFigure_ends hsmall (by omega) hs.1 hs.2.1 hs.2.2
  · rintro ⟨off, figures⟩ ⟨hoff, hlen, hasc⟩
    exact ⟨nfigures, figures, rfl, hoff, hcount.2, hasc.figures hlen hcount.1⟩

theorem parseShape_ends {s : Nat × List Shape}
    (hroom : metadata + offset + 9 * (i + 1) ≤ g.inputData.length)
    (hoff : s.1 = offset + 9 * i) (hlen : s.2.length = i) :
    Ends Raised (parseShape g metadata i s) fun t =>
      t.1 = offset + 9 * (i + 1) ∧ t.2.length = i + 1 := by
  refine (readU32_ends (by omega)).bind fun parentIndex _ => ?_
  refine (readU32_ends (by omega)).bind fun figureOffset _ => ?_
  rw [u32_eq (n := s.1 + 8) (by omega)]
  refine (readByte_ends (by omega)).bind fun type _ => ?_
  refine throwIf_ends.bind fun _ _ => throwIf_ends.bind fun _ _ => ⟨?_, ?_⟩
  · show u32 (s.1 + 9) = _
    rw [hoff, u32_eq (by omega)]
    omega
  · show (s.2 ++ [_]).length = _
    rw [length_append, hlen]
    rfl

/-- The number of shapes may be too large for 32 bits when it is multiplied, but then there is no
memory for them. -/
theorem parseShapes_ends :
    Ends Raised (parseShapes g metadata offset) fun g' =>
      ∃ (nshapes : Nat) (shapes : List Shape),
        g' = { g with nshapes, shapes, metadataSize := offset + 4 + 9 * nshapes } ∧
        1 ≤ nshapes ∧ shapes.length = nshapes ∧
        metadata + (offset + 4 + 9 * nshapes) ≤ g.inputData.length := by
  unfold parseShapes checkMetadataBounds
  refine throwIf_ends.bind fun _ hroom => ?_
  have hroom' : metadata + offset + 4 ≤ g.inputData.length := Nat.le_of_not_lt hroom
  refine (readU32_ends (by omega)).bind fun nshapes _ => ?_
  refine throwIf_ends.bind fun _ hcount => throwIf_ends.bind fun _ hroom => ?_
  refine (palloc_ends _ _).bind fun _ halloc => ?_
  have hmax : maxAllocSize = 2 ^ 30 - 1 := rfl
  rw [u32_eq (n := offset + 4) (by omega)] at hroom ⊢
  rw [u32_eq (by omega)] at hroom
  have hroom' : metadata + (offset + 4) + nshapes * 9 ≤ g.inputData.length :=
    Nat.le_of_not_lt hroom
  refine (Ends.forCount (I := fun i (s : Nat × List Shape) =>
    s.1 = offset + 4 + 9 * i ∧ s.2.length = i) ⟨rfl, rfl⟩ ?_).bind ?_
  · intro i s hi hs
    exact parseShape_ends hsmall (by omega) hs.1 hs.2
  · rintro ⟨off, shapes⟩ ⟨hoff, hlen⟩
    obtain rfl : off = offset + 4 + 9 * nshapes := hoff
    exact ⟨nshapes, shapes, rfl, Nat.le_of_not_lt hcount, hlen, by omega⟩

end

/-- What is known once the tables have been read. -/
structure Tabled (g : GeometryData) (n : Nat) : Prop where
  hasData : g.hasNpointsData = true
  npoints : g.npoints = n
  columns : Columns g.inputData 10 n g.hasZ g.hasM
  figures : Figures g n
  few : g.nfigures ≤ n
  shapes : g.shapes.length = g.nshapes
  root : 1 ≤ g.nshapes
  size : g.metadataSize = 8 + 5 * g.nfigures + 9 * g.nshapes
  inside : 10 + n * stride g.hasZ g.hasM + g.metadataSize ≤ g.inputData.length

namespace Tabled

variable {n : Nat}

section

variable (h : Tabled g n)
include h

theorem ofInt32_npoints : ofInt32 g.npoints = n := by
  have hw := h.columns.no_wrap
  rw [h.npoints, ofInt32_natCast (by omega)]

theorem named (name : Nat) : Tabled { g with geomName := name } n :=
  ⟨h.hasData, h.npoints, h.columns,
    ⟨h.figures.length, h.figures.pos, h.figures.first, h.figures.grows⟩, h.few, h.shapes, h.root,
    h.size, h.inside⟩

theorem validateLinestringFigures_ends :
    Ends Raised (validateLinestringFigures g) fun _ => True := by
  refine .forCount (I := fun _ _ => True) trivial fun i _ hi _ => ?_
  obtain ⟨figure, hfigure, -⟩ := h.figures.elemAt_eq hi
  unfold validateStroke
  rw [hfigure, ok_bind]
  exact throwIf_ends.mono fun _ _ => trivial

theorem validatePolygonFigures_ends : Ends Raised (validatePolygonFigures g n) fun _ => True := by
  have hw := h.columns.no_wrap
  refine (Ends.forCount (I := fun _ _ => True) trivial fun i _ hi _ => ?_).bind
    fun _ _ => throwIf_ends.mono fun _ _ => trivial
  obtain ⟨figure, hfigure, -⟩ := h.figures.elemAt_eq hi
  unfold validateRing
  rw [hfigure, ok_bind, h.figures.ringPoints_eq (by omega) hi]
  refine throwIf_ends.bind fun _ _ => ?_
  exact throwIf_ends.bind fun _ _ => trivial

theorem validateMultiFigures_ends (expectedChildType : UInt8) :
    Ends Raised (validateMultiFigures g n expectedChildType) fun _ => True := by
  refine (Ends.forRange (I := fun _ _ => True) trivial fun i _ _ hi _ => ?_).bind fun _ _ => ?_
  · unfold validateChild
    refine (Ends.elemAt (by rw [h.shapes]; omega)).bind fun shape _ => ?_
    refine throwIf_ends.bind fun _ _ => throwIf_ends.bind fun _ _ => ?_
    exact throwIf_ends.mono fun _ _ => trivial
  · split
    · exact h.validateLinestringFigures_ends
    · exact h.validateLinestringFigures_ends
    · exact h.validatePolygonFigures_ends
    · exact raise_ends

theorem resolveType_ends : Ends Raised (resolveType g n) fun g' => Tabled g' n := by
  refine (Ends.elemAt (by rw [h.shapes]; exact h.root)).bind fun root _ => ?_
  split
  · refine h.validateLinestringFigures_ends.bind fun _ _ => ?_
    exact h.named 2
  · refine h.validatePolygonFigures_ends.bind fun _ _ => ?_
    exact h.named 3
  · exact h.named 1
  · refine (h.validateMultiFigures_ends 1).bind fun _ _ => ?_
    exact h.named 4
  · refine (h.validateMultiFigures_ends 2).bind fun _ _ => ?_
    exact h.named 5
  · exact raise_ends

end

end Tabled

/-- **The tables**: what they say about the points is in order, and they are inside the input. -/
theorem parseFiguresAndShapes_ends (hdata : g.hasNpointsData = true)
    (hn : g.npoints = n) (hcol : Columns g.inputData 10 n g.hasZ g.hasM) :
    Ends Raised (parseFiguresAndShapes g) fun g' => Tabled g' n := by
  have hw := hcol.no_wrap
  have hint : ofInt32 g.npoints = n := by rw [hn, ofInt32_natCast (by omega)]
  have hmeta : g.metadata = 10 + n * stride g.hasZ g.hasM := by
    rw [metadata, hint, u32_eq (by omega)]
  unfold parseFiguresAndShapes
  rw [hint, hmeta]
  refine (parseFigures_ends hcol.small hw.2.2).bind ?_
  rintro ⟨g', off⟩ ⟨nfigures, figures, hg', hoff, hfew, hfig⟩
  simp only at hg' hoff
  have hsmall : g'.inputData.length ≤ 2 ^ 30 := by rw [hg']; exact hcol.small
  refine (parseShapes_ends hsmall).bind ?_
  rintro g'' ⟨nshapes, shapes, hg'', hroot, hshapes, hinside⟩
  have hnpoints : g''.npoints = n := by rw [hg'', hg']; exact hn
  rw [hnpoints, ofInt32_natCast (by omega)]
  refine Tabled.resolveType_ends ?_
  subst hg'' hg' hoff
  refine ⟨hdata, hn, hcol, ?_, hfew, hshapes, hroot, ?_, hinside⟩
  · exact ⟨hfig.length, hfig.pos, hfig.first, hfig.grows⟩
  · show 4 + 5 * nfigures + 4 + 9 * nshapes = 8 + 5 * nfigures + 9 * nshapes
    omega

/-! ### Parts -/

section
variable {n : Nat}

theorem childPtEnd_ends (h : Tabled g n) (figEnd : Nat) :
    Ends Raised (childPtEnd g figEnd) fun ptEnd => ptEnd ≤ n := by
  refine .ite (fun hlt => ?_) fun _ => Nat.le_of_eq h.ofInt32_npoints
  obtain ⟨figure, hfigure, hstart⟩ := h.figures.elemAt_eq hlt
  rw [hfigure, ok_bind]
  rw [hstart]
  exact h.figures.start_le (Nat.le_of_lt hlt)

/-- A part begins at a point; its end may be before its beginning. -/
theorem getChildInfo_ends (h : Tabled g n) (hi : i < g.nshapes) :
    Ends Raised (getChildInfo g i) fun child => child.1 < n ∧
      ∃ ptEnd ≤ n, child.2 = sub32 ptEnd child.1 := by
  refine (Ends.elemAt (by rw [h.shapes]; exact hi)).bind fun shape _ => ?_
  refine throwIf_ends.bind fun _ hlt => ?_
  obtain ⟨figure, hfigure, hstart⟩ := h.figures.elemAt_eq (Nat.lt_of_not_le hlt)
  rw [hfigure, ok_bind]
  refine .bind (Q := fun _ => True) ?_ fun figEnd _ => ?_
  · unfold childFigEnd
    refine .ite (fun hnext => ?_) fun _ => trivial
    exact (Ends.elemAt (by rw [h.shapes]; omega)).bind fun _ _ => trivial
  · refine (childPtEnd_ends h figEnd).bind fun ptEnd hend => ⟨?_, ptEnd, hend, rfl⟩
    have hgrows := h.figures.grows _ (Nat.lt_of_not_le hlt)
    have hle := h.figures.start_le (show shape.figureOffset + 1 ≤ g.nfigures by omega)
    omega

/-- A part that ends before it begins has too many points for the limit. -/
theorem points_of_size {start ptEnd : Nat} (hasZ hasM : Bool) (hn : n ≤ 2 ^ 26) (hstart : start < n)
    (hend : ptEnd ≤ n) (hsize : 9 + sub32 ptEnd start * stride hasZ hasM ≤ maxAllocSize) :
    start + sub32 ptEnd start ≤ n := by
  have hmax : maxAllocSize = 2 ^ 30 - 1 := rfl
  have hmul := mul_stride (sub32 ptEnd start) hasZ hasM
  by_cases horder : start ≤ ptEnd
  · rw [sub32_eq horder (by omega)]
    omega
  · have hwrap : sub32 ptEnd start = ptEnd + 2 ^ 32 - start := Nat.mod_eq_of_lt (by omega)
    omega

theorem addChildSize_ends (h : Tabled g n) (hname : g.geomName = 4 ∨ g.geomName = 5) {acc : Nat}
    (hi : i < g.nshapes - 1) :
    Ends Raised (addChildSize g i acc) fun acc' => acc' = acc + childSize g i ∧
      acc' ≤ maxAllocSize ∧ ChildOk g n i := by
  have hinfo := getChildInfo_ends h (show i + 1 < g.nshapes by omega)
  have hw := h.columns.no_wrap
  unfold addChildSize
  cases hchild : getChildInfo g (i + 1) with
  | error e =>
    rwa [hchild] at hinfo
  | ok child =>
    rw [hchild] at hinfo
    obtain ⟨hstart, ptEnd, hend, hpoints⟩ := hinfo
    have hof : childOf g i = child := by
      unfold childOf
      rw [hchild]
    rcases hname with hname | hname
    · have hsize : childSize g i = 5 + stride g.hasZ g.hasM := if_pos hname
      rw [hname]
      refine throwIf_ends.bind fun _ hle => ⟨?_, Nat.le_of_not_lt hle, ?_⟩
      · rw [hsize]
      · refine ⟨by rw [hof]; exact hchild, by rw [hof]; exact hstart, ?_⟩
        intro hfive
        omega
    · have hsize : childSize g i = 9 + child.2 * stride g.hasZ g.hasM := by
        rw [← hof]
        exact if_neg (by omega)
      rw [hname]
      unfold calculateChildWkbSize
      simp only [bind_assoc]
      refine throwIf_ends.bind fun _ hmax => ?_
      refine throwIf_ends.bind fun _ hle => ⟨?_, Nat.le_of_not_lt hle, ?_⟩
      · rw [hsize]
      · refine ⟨by rw [hof]; exact hchild, by rw [hof]; exact hstart, fun _ => ?_⟩
        rw [hof, hpoints]
        refine points_of_size g.hasZ g.hasM hw.2.2 hstart hend ?_
        rw [← hpoints]
        exact Nat.le_of_not_lt hmax

theorem sized_ends (h : Tabled g n) (hname : g.geomName = 4 ∨ g.geomName = 5) :
    Ends Raised (forRange (addChildSize g) 0 (g.nshapes - 1) 13) (Sized g n) := by
  refine .forCount (I := fun i size => size = 13 + childrenSize g i ∧ size ≤ maxAllocSize ∧
    ∀ j < i, ChildOk g n j) ?_ ?_
  · exact ⟨rfl, by decide, by simp⟩
  · rintro i size hi ⟨hsize, -, hok⟩
    refine (addChildSize_ends h hname hi).mono ?_
    rintro size' ⟨hsize', hmax, hchild⟩
    refine ⟨?_, hmax, ?_⟩
    · rw [hsize', hsize]
      show 13 + childrenSize g i + childSize g i = 13 + (childrenSize g i + childSize g i)
      omega
    · intro j hj
      rcases Nat.lt_succ_iff_lt_or_eq.mp hj with hj | rfl
      · exact hok j hj
      · exact hchild

/-! ### The result -/

theorem Tabled.source_eq (h : Tabled g n) : g.source = 10 := by
  rw [source, h.hasData]
  rfl

theorem Tabled.room (h : Tabled g n) : 32 + n * stride g.hasZ g.hasM ≤ g.inputData.length := by
  have hsize := h.size
  have hroot := h.root
  have hpos := h.figures.pos
  have hin := h.inside
  omega

theorem calculateLinestringSize_tabled (h : Tabled g n) :
    calculateLinestringSize g = g.inputData.length - 19 := by
  have hroom := h.room
  have hsmall := h.columns.small
  rw [calculateLinestringSize, if_pos h.hasData, inputLen]
  simp (disch := omega) only [u32_eq, sub32_eq]
  omega

theorem calculateLinestringSize_fixed (hdata : g.hasNpointsData = false)
    (hlen : 22 ≤ g.inputData.length) (hsmall : g.inputData.length ≤ 2 ^ 30) :
    calculateLinestringSize g = g.inputData.length + 7 := by
  rw [calculateLinestringSize, if_neg (by simp [hdata]), inputLen,
    sub32_eq (by omega) (by omega), u32_eq (by omega)]
  omega

theorem calculatePolygonSize_tabled (h : Tabled g n) :
    calculatePolygonSize g = g.inputData.length + 3 - g.metadataSize + 4 * g.nfigures := by
  have hin := h.inside
  have hsmall := h.columns.small
  have hw := h.columns.no_wrap
  have hfew := h.few
  unfold calculatePolygonSize inputLen
  simp (disch := omega) only [u32_eq, sub32_eq]
  omega

section

variable (hlen : 22 ≤ g.inputData.length)
include hlen

theorem startResult_inside {type : UInt8} {size : Nat} {f : List UInt8 → Checked (List UInt8)}
    {xs : List UInt8} (hf : Writes Raised size 9 f xs id)
    (hfit : 9 + xs.length ≤ size) (hmax : size < 2 ^ 31) :
    Ends Raised (startResult g type size >>= f) fun _ => True :=
  (startResult_bind_ends (by omega) hf hfit (by omega) (.inr raised_raised)).mono
    fun _ _ => trivial

theorem convertPoint_ends (hcol : Columns g.inputData g.source 1 g.hasZ g.hasM) :
    Ends Raised (startResult g 0x01 (calculatePointSize g) >>= handlePointCoordinates g)
      fun _ => True := by
  have hst := stride_bounds g.hasZ g.hasM
  unfold calculatePointSize
  refine startResult_inside hlen (handlePointCoordinates_writes hcol) ?_ (by omega)
  rw [hcol.length_columnPoint Nat.one_pos]

theorem convertLine_ends {total : Nat}
    (htotal : (if g.hasNpointsData then ofInt32 g.npoints else 2) = total)
    (hcol : Columns g.inputData g.source total g.hasZ g.hasM)
    (hfit : 13 + total * stride g.hasZ g.hasM ≤ calculateLinestringSize g)
    (hmax : calculateLinestringSize g < 2 ^ 31) :
    Ends Raised (startResult g 0x02 (calculateLinestringSize g) >>= handleLinestringCoordinates g)
      fun _ => True := by
  refine startResult_inside hlen (handleLinestringCoordinates_writes hcol htotal) ?_ hmax
  rw [length_append, length_leBytes, hcol.length_columnPoints (by omega)]
  omega

end

theorem Tabled.convertGeometry_ends (h : Tabled g n) (junk : Nat → UInt8) :
    Ends Raised (convertGeometry junk g) fun _ => True := by
  have hroom := h.room
  have hin := h.inside
  have hsmall := h.columns.small
  have hw := h.columns.no_wrap
  have hfew := h.few
  have hcol : Columns g.inputData g.source n g.hasZ g.hasM := by
    rw [h.source_eq]
    exact h.columns
  unfold convertGeometry
  split
  · exact convertPoint_ends (by omega) (hcol.take (h.figures.pos.trans h.few))
  · have hsize := calculateLinestringSize_tabled h
    refine convertLine_ends (by omega) ?_ hcol (by omega) (by omega)
    rw [if_pos h.hasData, h.ofInt32_npoints]
  · rw [calculatePolygonSize_tabled h]
    refine startResult_inside (by omega) (handlePolygonCoordinates_writes hcol
      h.hasData h.ofInt32_npoints h.figures (by omega)) ?_ (by omega)
    rw [length_append, length_leBytes, length_ringsBytes hcol h.figures (Nat.le_refl _),
      h.figures.last]
    omega
  · rename_i hname
    exact (handleMultiToPostgis_ends h.ofInt32_npoints h.columns (.inl hname)
      (sized_ends h (.inl hname)) (.inr raised_raised)).mono fun _ _ => trivial
  · rename_i hname
    exact (handleMultiToPostgis_ends h.ofInt32_npoints h.columns (.inr hname)
      (sized_ends h (.inr hname)) (.inr raised_raised)).mono fun _ _ => trivial
  · exact raise_ends

end

/-- The data once its kind is known: the coordinates to copy and the latitudes to look at are
inside. -/
theorem handleNonEmptyGeometryBytea_ends (h : Placed g) (hflag : g.dimensionFlag ≠ 0)
    (junk : Nat → UInt8) :
    Ends Raised (handleNonEmptyGeometryBytea junk g) fun p => LatitudesInside p.1 := by
  have hst := stride_bounds g.hasZ g.hasM
  unfold handleNonEmptyGeometryBytea resolveKind
  cases h with
  | empty hzero => exact absurd hzero hflag
  | complex n hdata hname hn hcol =>
    rw [if_pos ⟨hdata, hname⟩]
    refine (parseFiguresAndShapes_ends hdata hn hcol).bind fun g' hg' => ?_
    refine (hg'.convertGeometry_ends junk).bind fun result _ _ => ⟨?_, hg'.columns.small⟩
    have hroom := hg'.room
    have hmul := mul_stride n g'.hasZ g'.hasM
    show (checkedPoints g').2 + (checkedPoints g').1 * 16 ≤ g'.inputData.length
    by_cases hpoint : g'.geomName = 1
    · rw [checkedPoints, if_neg (by simp [hpoint])]
      omega
    · rw [checkedPoints, if_pos hpoint, if_pos hg'.hasData, hg'.npoints]
      omega
  | point hdata hname hcol =>
    have hin := hcol.inside
    have hsource : g.source = 6 := by rw [source, hdata]; rfl
    rw [if_neg (by simp [hdata]), ok_bind]
    refine .bind (Q := fun _ => True) ?_ fun result _ _ => ⟨?_, hcol.small⟩
    · unfold convertGeometry
      rw [hname]
      exact convertPoint_ends (by omega) (by rwa [hsource])
    · show (checkedPoints g).2 + (checkedPoints g).1 * 16 ≤ g.inputData.length
      rw [checkedPoints, if_neg (by simp [hname])]
      show 6 + 1 * 16 ≤ _
      omega
  | line hdata hname hcol =>
    have hin := hcol.inside
    have hsmall := hcol.small
    have hsource : g.source = 6 := by rw [source, hdata]; rfl
    rw [if_neg (by simp [hdata]), ok_bind]
    refine .bind (Q := fun _ => True) ?_ fun result _ _ => ⟨?_, hcol.small⟩
    · unfold convertGeometry
      rw [hname]
      have hsize := calculateLinestringSize_fixed hdata (by omega) hsmall
      refine convertLine_ends (by omega) ?_ (by rwa [hsource]) (by omega) (by omega)
      rw [if_neg (by simp [hdata])]
    · show (checkedPoints g).2 + (checkedPoints g).1 * 16 ≤ g.inputData.length
      rw [checkedPoints, if_pos (by omega), if_neg (by simp [hdata])]
      show 6 + 2 * 16 ≤ _
      omega

theorem handleEmptyGeometryBytea_ends (hlen : 22 ≤ g.inputData.length)
    (hflag : g.dimensionFlag = 0) : Ends Raised (handleEmptyGeometryBytea g) fun _ => True := by
  have htype : Ends Raised (emptyType g) fun _ => True := by
    refine .ite (fun _ => ?_) fun _ => ?_
    · refine throwIf_ends.bind fun _ hlong => ?_
      have hlong' : 27 ≤ g.inputData.length := Nat.le_of_not_lt hlong
      rw [readAt_eq (by omega), ok_bind]
      exact .ite (fun _ => raise_ends) fun _ => readByte_ends (by omega)
    · refine throwIf_ends.bind fun _ hlong => ?_
      exact readByte_ends (Nat.le_of_not_lt hlong)
  refine htype.bind fun type _ => ?_
  have hempty : ∀ type, Ends Raised (createEmptyGeometry g type) fun _ => True := fun type =>
    (createEmptyGeometry_ends (by omega) hflag type).mono fun _ _ => trivial
  split
  case h_1 => exact (createEmptyPoint_ends (by omega) hflag).mono fun _ _ => trivial
  case h_6 => exact raise_ends
  all_goals exact hempty _

theorem processGeometryData_ends (h : Placed g) (hlen : 22 ≤ g.inputData.length)
    (junk : Nat → UInt8) :
    Ends Raised (processGeometryData junk g) fun p => LatitudesInside p.1 := by
  refine .ite (fun hflag => ?_) fun hflag => handleNonEmptyGeometryBytea_ends h hflag junk
  exact (handleEmptyGeometryBytea_ends hlen hflag).bind fun _ _ hne => absurd hflag hne

end

/-! ### The two functions -/

theorem validateInputLength_ends {typeName : String} :
    Ends Raised (validateInputLength input typeName) fun _ => 22 ≤ input.length := by
  exact .ite (fun _ => raise_ends) fun h => Nat.le_of_not_lt h

theorem initializeGeometryData_ends (hlen : 22 ≤ input.length) :
    Ends Raised (initializeGeometryData input) fun g =>
      g.inputData = input ∧ g.geomName = 0 ∧ g.hasNpointsData = false := by
  refine (readU32_ends (by omega)).bind fun srid _ => ?_
  refine (readByte_ends (by omega)).bind fun geomClass _ => ?_
  refine (readByte_ends (by omega)).bind fun geomType _ => ?_
  exact ⟨rfl, rfl, rfl⟩

theorem readGeometry_ends (hlen : 22 ≤ input.length) (hsmall : input.length ≤ 2 ^ 30)
    {f : GeometryData → Checked α}
    (hf : ∀ g, Placed g → 22 ≤ g.inputData.length → Ends Raised (f g) Q) :
    Ends Raised (do
      let g ← initializeGeometryData input
      let g ← setDimensionFlag g
      let g ← checkNanUnlessEmpty g
      f g) Q := by
  refine (initializeGeometryData_ends hlen).bind ?_
  rintro g ⟨rfl, hname, hdata⟩
  refine (setDimensionFlag_ends hlen hsmall hname hdata).bind ?_
  rintro g' ⟨hinput', hplaced⟩
  refine (checkNanUnlessEmpty_ends hplaced).bind ?_
  rintro g'' ⟨hinput'', hplaced⟩
  refine hf g'' hplaced ?_
  rwa [hinput'', hinput']

theorem geometryFromBytea_ends (hsmall : input.length ≤ 2 ^ 30) :
    Ends Raised (geometryFromBytea junk input) fun _ => True := by
  refine validateInputLength_ends.bind fun _ hlen => ?_
  refine readGeometry_ends hlen hsmall fun g hplaced hlen' => ?_
  refine .ite (fun _ => raise_ends) fun _ => ?_
  exact (processGeometryData_ends hplaced hlen' junk).bind fun _ _ => trivial

theorem geographyFromBytea_ends (hsmall : input.length ≤ 2 ^ 30) :
    Ends Raised (geographyFromBytea junk input) fun _ => True := by
  refine validateInputLength_ends.bind fun _ hlen => ?_
  refine readGeometry_ends hlen hsmall fun g hplaced hlen' => ?_
  refine (processGeometryData_ends hplaced hlen' junk).bind fun p hp => ?_
  exact (validateLatitudeUnlessEmpty_ends hp).bind fun _ _ => trivial

theorem Ends.ne_outOfBounds {x : Checked α} (h : Ends Raised x Q) : x ≠ .error .outOfBounds := by
  rintro rfl
  exact h rfl

/-- **No access outside**: for every input of up to 1 GB, both functions read only bytes of the
input and write only bytes of the result, or raise an error. -/
theorem fromBytea_inside (junk : Nat → UInt8) (input : List UInt8)
    (hsmall : input.length ≤ 2 ^ 30) :
    geometryFromBytea junk input ≠ .error .outOfBounds ∧
      geographyFromBytea junk input ≠ .error .outOfBounds :=
  ⟨Ends.ne_outOfBounds (geometryFromBytea_ends junk hsmall),
    Ends.ne_outOfBounds (geographyFromBytea_ends junk hsmall)⟩

/-- A geometry of three points in two parts, of which the second begins before the first. -/
def crossedParts : List UInt8 :=
  leBytes 4 4326 ++ [1, 4] ++ leBytes 4 3 ++ List.replicate 48 0
    ++ leBytes 4 2 ++ ([1] ++ leBytes 4 0) ++ ([1] ++ leBytes 4 2)
    ++ leBytes 4 3 ++ (leBytes 4 0xFFFFFFFF ++ leBytes 4 0 ++ [5])
    ++ (leBytes 4 0 ++ leBytes 4 1 ++ [2]) ++ (leBytes 4 0 ++ leBytes 4 0 ++ [2])

/-- The number of points of its first part wraps around, and the part is refused. -/
theorem crossedParts_refused :
    crossedParts.length ≤ 2 ^ 30 ∧
      (geometryFromBytea (fun _ => 0) crossedParts =
          .error (.raised "Error converting data type varbinary.")) ∧
      geometryFromBytea (fun _ => 0) crossedParts ≠ .error .outOfBounds ∧
      geographyFromBytea (fun _ => 0) crossedParts ≠ .error .outOfBounds :=
  ⟨by decide, by decide +kernel, fromBytea_inside _ _ (by decide)⟩

end Babelfish.Common.Spatial
