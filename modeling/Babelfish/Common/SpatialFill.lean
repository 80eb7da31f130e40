import Babelfish.Common.SpatialForward

/-!
# The memory of the result

`construct_result_bytea` asks for as many bytes as it has counted, and then writes.  For every
geometry with points, whatever its coordinates are, the two agree: each byte of the result is
written, and no other.  A geometry without points is written in a form of its own, but with Z or M
its size is counted as if it were written like the others.

* `Content.Counts`: the number of points that PostGIS gives.
* `FillsResult`: the bytes that are asked for are those that are written.
* `fillsResult_iff`: this is so exactly for the geometries with points and those of two dimensions.
-/

namespace Babelfish.Common.Spatial

open Lib List

/-! ### The points that are counted -/

namespace Content

variable {hasZ hasM : Bool} {n : Nat} {c : Content hasZ hasM}

/-- The number of points that PostGIS gives: a point without coordinates, which it writes as one
whose coordinates are no numbers, is not counted. -/
def Counts (n : Nat) : Content hasZ hasM → Prop
  | point _ => n ≤ 1
  | multiPoint ps => n ≤ ps.length
  | c => n = c.points.length

/-- The geometry as far as its points are counted. -/
def first (n : Nat) : Content hasZ hasM → Content hasZ hasM
  | multiPoint ps => multiPoint (ps.take n)
  | c => c

theorem kind_first (n : Nat) (c : Content hasZ hasM) : (c.first n).kind = c.kind := by
  cases c <;> rfl

theorem Counts.length_first (h : c.Counts n) (hn : n ≠ 0) : (c.first n).points.length = n := by
  cases c with
  | point p =>
    have hle : n ≤ 1 := h
    show 1 = n
    omega
  | multiPoint ps =>
    rw [first, points_multiPoint]
    exact length_take_of_le h
  | _ => exact Eq.symm h

theorem held_first {bytes : List UInt8} {offset : Nat}
    (h : OccursAt bytes offset (c.bytes .flags)) : (c.first n).Held bytes offset := by
  cases c with
  | multiPoint ps =>
    have hparts := OccursAt.right h
    rw [length_leBytes, ← take_append_drop n ps, flatMap_append] at hparts
    exact hparts.left
  | _ => exact h

end Content

/-! ### The memory -/

/-- **The result is filled**: from all memory of the size that was counted the code makes the same
result, so that it writes inside of it and leaves no byte as it was. -/
def FillsResult (info : GeoDataInfo) (isGeography : Bool) : Prop :=
  ∃ metadataSize out, metadataSizeOf info isGeography = .ok metadataSize ∧
    ∀ buf : List UInt8, buf.length = totalSize info metadataSize →
      fillResult info isGeography buf = .ok out

section
variable {info : GeoDataInfo} {isGeography : Bool}

theorem fillsResult_of_writes {metadataSize : Nat} {xs : List UInt8}
    (hmeta : metadataSizeOf info isGeography = .ok metadataSize)
    (hsize : xs.length = totalSize info metadataSize)
    (h : Writes (fun _ => False) (totalSize info metadataSize) 0 (fillResult info isGeography) xs
      id) : FillsResult info isGeography := by
  refine ⟨metadataSize, xs, hmeta, fun buf hbuf => ?_⟩
  obtain ⟨out, hout, rfl⟩ := (h.ends hsize hbuf).exists_ok
  exact hout

theorem drop_of_writeAt {buf out xs : List UInt8} {pos k : Nat}
    (h : (writeAt buf pos xs : Checked (List UInt8)) = .ok out) (hk : pos + xs.length ≤ k) :
    out.drop k = buf.drop k := by
  unfold writeAt at h
  split at h
  · next hfit =>
    cases h
    have hlen : (buf.take pos ++ xs).length = pos + xs.length := by
      rw [length_append, length_take_of_le (by omega)]
    rw [overwrite, drop_append, hlen, drop_drop, drop_eq_nil_of_le (by omega),
      Nat.add_sub_cancel' hk]
    rfl
  · cases h

/-- The empty form takes 27 bytes; more of them stay as they were. -/
theorem drop_of_fillResult {buf out srid : List UInt8} (hempty : info.isEmpty = true)
    (hset : ∀ buf : List UInt8, setSridData info isGeography buf = writeAt buf 0 srid)
    (hsrid : srid.length = 4) (h : fillResult info isGeography buf = .ok out) :
    out.drop 27 = buf.drop 27 := by
  unfold fillResult setGeomTypeHeader handleEmptyGeometry at h
  simp only [hset, hempty, if_true] at h
  obtain ⟨first, hfirst, h⟩ := bind_eq_ok.mp h
  obtain ⟨second, hsecond, h⟩ := bind_eq_ok.mp h
  obtain ⟨third, hthird, h⟩ := bind_eq_ok.mp h
  rw [drop_of_writeAt h (Nat.le_refl 27), drop_of_writeAt hthird (show 6 + 20 ≤ 27 by decide),
    drop_of_writeAt hsecond (show 4 + 2 ≤ 27 by decide), drop_of_writeAt hfirst (by omega)]

end

section
variable {isGeography isValid hasSrid : Bool} {g : Geometry} {n : Nat}

theorem fillsResult_points (isValid : Bool) (hn : g.content.Counts n) (hne : n ≠ 0)
    (hgeo : isGeography = true → hasSrid = true) (hsrid : hasSrid = false → g.srid = 0)
    (hsmall : (ewkb .flags hasSrid g).length ≤ 2 ^ 30) :
    ∃ info, determineGeomDimensions (initializeGeomData (n == 0) isValid n
        (ewkb .flags hasSrid g)) = some info ∧ FillsResult info isGeography := by
  have hlen := hn.length_first hne
  have hempty : (g.content.first n).points.isEmpty = false := by
    rw [isEmpty_eq_false_iff, ← length_pos_iff]
    omega
  generalize hinfo : { formInfo isValid hasSrid ⟨g.srid, g.hasZ, g.hasM, g.content.first n⟩ with
    byteData := ewkb .flags hasSrid g } = info
  have hsource : Source info isGeography (g.content.first n) := by
    subst hinfo
    exact ⟨hasZ_of_flagByte rfl, hasM_of_flagByte rfl,
      Content.held_first (ewkb_data rfl hgeo), hsmall, rfl, rfl⟩
  have hcoord : info.coordSize = (g.content.first n).points.length * stride g.hasZ g.hasM := by
    rw [← hinfo]
    rfl
  have hpoints : info.isEmpty = false := by rw [← hinfo]; exact hempty
  have hset := setSridData_eq (g := g) (show info.byteData = _ by rw [← hinfo])
    (show info.hasSrid = hasSrid by rw [← hinfo]; rfl) hgeo hsrid
  obtain ⟨hsize, hlt⟩ := hsource.totalSize_eq hpoints hcoord
  refine ⟨info, ?_, fillsResult_of_writes (hsource.metadataSizeOf_eq hpoints) ?_
    (fillResult_points hset (length_leBytes 4 _) hsource hpoints hcoord (by omega))⟩
  · have hform := determineGeomDimensions_form isValid hasSrid (Content.kind_first n g.content)
      (Nat.lt_of_le_of_lt hsource.sizes_small.1 (by decide)) (by simp [hempty])
    rw [hinfo, hempty, hlen] at hform
    rw [← hform, beq_eq_false_iff_ne.mpr hne]
  · rw [hsize, length_append, length_append, length_leBytes]
    show 4 + (2 + _) = _
    omega

variable {info : GeoDataInfo} (h : EmptyInfo isValid hasSrid g info)
  (hgeo : isGeography = true → hasSrid = true) (hsrid : hasSrid = false → g.srid = 0)
include h hgeo hsrid

theorem EmptyInfo.fills (hdims : g.hasZ = false ∧ g.hasM = false) :
    FillsResult info isGeography := by
  have hset := setSridData_eq h.byteData h.flag hgeo hsrid
  refine fillsResult_of_writes h.metadataSizeOf_eq ?_
    (fillResult_empty hset (length_leBytes 4 _) h.isEmpty)
  rw [h.totalSize_eq, (h.flat hdims).1, length_append, length_leBytes]
  rfl

/-- With Z or M it does not fit, or leaves bytes as they were. -/
theorem EmptyInfo.not_fills (hdims : ¬(g.hasZ = false ∧ g.hasM = false)) :
    ¬FillsResult info isGeography := by
  have hset := setSridData_eq h.byteData h.flag hgeo hsrid
  have hcoord := h.dims hdims
  rintro ⟨metadataSize, out, hmeta, hfill⟩
  obtain rfl : 0 = metadataSize := Except.ok.inj (h.metadataSizeOf_eq.symm.trans hmeta)
  rw [h.totalSize_eq] at hfill
  split_ifs at hcoord
  · have hstride : 24 ≤ stride g.hasZ g.hasM := by
      revert hdims
      cases g.hasZ <;> cases g.hasM <;> decide
    have hkept := fun x : UInt8 => drop_of_fillResult h.isEmpty hset (length_leBytes 4 _)
      (hfill (List.replicate _ x) length_replicate)
    have hsame := (hkept 0).symm.trans (hkept 1)
    rw [drop_replicate, drop_replicate, replicate_inj] at hsame
    rcases hsame with ⟨-, hnone | hbyte⟩
    · omega
    · cases hbyte
  · have hout := hfill (List.replicate _ 0) length_replicate
    rw [fillResult_overrun hset (length_leBytes 4 _) h.isEmpty
      (by rw [length_replicate]; omega) (by rw [length_replicate]; omega)] at hout
    cases hout

end

/-- **The result is filled exactly if the geometry has points or two dimensions.** -/
theorem fillsResult_iff (isGeography isValid hasSrid : Bool) (g : Geometry) (n : Nat)
    (hn : g.content.Counts n) (hgeo : isGeography = true → hasSrid = true)
    (hsrid : hasSrid = false → g.srid = 0) (hsmall : (ewkb .flags hasSrid g).length ≤ 2 ^ 30) :
    ∃ info, determineGeomDimensions (initializeGeomData (n == 0) isValid n
        (ewkb .flags hasSrid g)) = some info ∧
      (FillsResult info isGeography ↔ n ≠ 0 ∨ (g.hasZ = false ∧ g.hasM = false)) := by
  by_cases hzero : n = 0
  · subst hzero
    obtain ⟨info, hinfo, h⟩ := determineGeomDimensions_empty isValid hasSrid g
    refine ⟨info, hinfo, fun hfills => .inr ?_, ?_⟩
    · by_contra hdims
      exact h.not_fills hgeo hsrid hdims hfills
    · rintro (hne | hdims)
      · exact absurd rfl hne
      · exact h.fills hgeo hsrid hdims
  · obtain ⟨info, hinfo, hfills⟩ := fillsResult_points isValid hn hzero hgeo hsrid hsmall
    exact ⟨info, hinfo, fun _ => .inl hzero, fun _ => hfills⟩

/-- A point, beside one that PostGIS writes without coordinates. -/
def besideEmpty : Geometry :=
  ⟨4326, false, false, .multiPoint [⟨1, 2, ⟨none, Option.isSome_none⟩, ⟨none, Option.isSome_none⟩⟩,
    ⟨0x7ff8000000000000, 0x7ff8000000000000, ⟨none, Option.isSome_none⟩,
      ⟨none, Option.isSome_none⟩⟩]⟩

theorem fillsResult_besideEmpty :
    ∃ info, determineGeomDimensions (initializeGeomData false true 1
        (ewkb .flags true besideEmpty)) = some info ∧ FillsResult info true := by
  obtain ⟨info, hinfo, h⟩ := fillsResult_iff true true true besideEmpty 1
    (show 1 ≤ 2 by decide) (fun _ => rfl) (by decide) (by decide)
  exact ⟨info, hinfo, h.mpr (.inl (by decide))⟩

/-- The code writes outside of the memory for a line with Z that has no points. -/
theorem lineZ_outside :
    byteaFromGeometry (initializeGeomData true true 0
      (ewkb .flags true ⟨4326, true, false, .line []⟩)) = .error .outOfBounds := by
  decide

end Babelfish.Common.Spatial
