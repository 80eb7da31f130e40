import Babelfish.Common.SpatialBack

/-!
# There and back

A geometry of PostGIS goes to the form of T-SQL and comes back.  It is the same geometry again if
its form of T-SQL fits into the memory that may be asked for, and if it has points or only two
dimensions.  With a third coordinate, `determine_geom_dimensions` leaves out the case of an empty
geometry, and what `handle_empty_geometry` writes is not counted in the size of the result.

* `roundTrip`: both ways.
* `roundTrip_same_iff`: when the geometry is the same again.
* `multiPointZ_empty_overrun`: a geometry without points that writes outside the result.
-/

namespace Babelfish.Common.Spatial

open Lib

/-- `construct_result_bytea` and then `process_geometry_data`. -/
def roundTrip (junk : Nat → UInt8) (isGeography : Bool) (info : GeoDataInfo) :
    Checked (List UInt8) := do
  let bytes ← byteaFrom isGeography info
  processBytea junk bytes

theorem Content.WellFormed.countable {hasZ hasM : Bool} {c : Content hasZ hasM}
    (h : c.WellFormed) (hn : c.points.length < 2 ^ 32) : c.Countable := by
  refine ⟨Nat.lt_of_le_of_lt (length_runs_le h.run_ne_nil) hn, ?_⟩
  intro run hrun
  have hle : run.length ≤ c.runs.flatten.length :=
    (List.sublist_flatten_of_mem hrun).length_le
  exact Nat.lt_of_le_of_lt hle hn

section
variable {junk : Nat → UInt8} {isGeography isValid hasSrid : Bool} {g : Geometry}

theorem roundTrip_points (hwf : g.content.WellFormed) (hfinite : ∀ p ∈ g.content.points, p.Finite)
    (hgeo : isGeography = true → hasSrid = true) (hsrid : hasSrid = false → g.srid = 0)
    (hsmall : (ewkb .flags hasSrid g).length ≤ 2 ^ 30) (hpoints : g.content.points ≠ [])
    (hfits : 4 + (clrBytes isGeography isValid g).length ≤ maxAllocSize) :
    roundTrip junk isGeography (describe isValid hasSrid g) = .ok (ewkb .iso true g) := by
  have hlimit : maxAllocSize = 2 ^ 30 - 1 := rfl
  have hforward : Ends (fun _ => False) (byteaFrom isGeography (describe isValid hasSrid g))
      fun out => out = clrBytes isGeography isValid g :=
    byteaFrom_ends hgeo hsrid hsmall hfinite (by simpa using hpoints) (.inl hfits)
  obtain ⟨out, hout, rfl⟩ := hforward.exists_ok
  rw [roundTrip, hout, ok_bind]
  cases hfixed : g.content.isFixed with
  | true => exact processBytea_fixed hwf hfixed hfits
  | false => exact processBytea_tables ⟨hwf, hpoints, hfixed, by omega⟩ hfits

/-- **There and back**: the way succeeds and gives the same SRID, kind, dimensions, parts and
points, exactly if the form of T-SQL fits and a geometry without points has two dimensions. -/
theorem roundTrip_same_iff (junk : Nat → UInt8) (isGeography isValid hasSrid : Bool) (g : Geometry)
    (hwf : g.content.WellFormed) (hfinite : ∀ p ∈ g.content.points, p.Finite)
    (hgeo : isGeography = true → hasSrid = true) (hsrid : hasSrid = false → g.srid = 0)
    (hvalue : 4 + (ewkb .flags hasSrid g).length ≤ maxAllocSize) :
    (∃ out, roundTrip junk isGeography (describe isValid hasSrid g) = .ok out ∧
        readEwkb out = some g) ↔
      if g.content.points = [] then g.hasZ = false ∧ g.hasM = false
      else 4 + (clrBytes isGeography isValid g).length ≤ maxAllocSize := by
  have hlimit : maxAllocSize = 2 ^ 30 - 1 := rfl
  have hsmall : (ewkb .flags hasSrid g).length ≤ 2 ^ 30 := by omega
  have hread : readEwkb (ewkb .iso true g) = some g := by
    have hsizes := (source_formInfo isValid hgeo hsmall).sizes_small
    have hmul := mul_stride g.content.points.length g.hasZ g.hasM
    exact readEwkb_ewkb .iso (by simp) (hwf.countable (by omega))
  split_ifs with hpoints
  · constructor
    · rintro ⟨out, hout, -⟩
      by_contra hdims
      rw [roundTrip, byteaFrom_empty_overrun hgeo hsrid hpoints hdims] at hout
      cases hout
    · rintro ⟨hz, hm⟩
      refine ⟨ewkb .iso true g, ?_, hread⟩
      rw [roundTrip, byteaFrom_empty hgeo hsrid hpoints hz hm, ok_bind]
      exact processBytea_emptyBytes hwf hpoints hz hm
  · constructor
    · rintro ⟨out, hout, -⟩
      by_contra hlarge
      obtain ⟨text, htext⟩ :=
        byteaFrom_large hgeo hsmall hfinite (by simpa using hpoints) hlarge
      rw [roundTrip, htext] at hout
      cases hout
    · intro hfits
      exact ⟨_, roundTrip_points hwf hfinite hgeo hsrid hsmall hpoints hfits, hread⟩

end

/-- A ring of four points with Z, the last one as the first one. -/
def ringZ : List (Point true false) :=
  [⟨0, 0, ⟨some 0, rfl⟩, ⟨none, Option.isSome_none⟩⟩,
    ⟨0x3ff0000000000000, 0, ⟨some 0, rfl⟩, ⟨none, Option.isSome_none⟩⟩,
    ⟨0x3ff0000000000000, 0x3ff0000000000000, ⟨some 0, rfl⟩, ⟨none, Option.isSome_none⟩⟩,
    ⟨0, 0, ⟨some 0, rfl⟩, ⟨none, Option.isSome_none⟩⟩]

theorem ringZ_finite : ∀ p ∈ (Content.polygon [ringZ]).points, p.Finite := by
  intro p hp
  have hmem : p ∈ ringZ := by simpa [Content.points, Content.runs] using hp
  simp only [ringZ, List.mem_cons, List.not_mem_nil, or_false] at hmem
  rcases hmem with rfl | rfl | rfl | rfl <;>
    exact ⟨rfl, rfl, fun v hv => by cases hv; rfl, fun v hv => by cases hv⟩

/-- A polygon of one ring comes back. -/
theorem polygonZ_comes_back :
    ∃ out, roundTrip (fun _ => 0) true (describe true true ⟨4326, true, false, .polygon [ringZ]⟩) =
        .ok out ∧ readEwkb out = some ⟨4326, true, false, .polygon [ringZ]⟩ :=
  (roundTrip_same_iff (fun _ => 0) true true true ⟨4326, true, false, .polygon [ringZ]⟩
    (fun ring hring => by rw [List.mem_singleton.mp hring]; decide) ringZ_finite (fun _ => rfl)
    (by decide) (by decide)).mpr (by
      rw [if_neg (by decide), length_clrBytes, Content.length_data _ rfl]
      decide)

/-- `MULTIPOINT Z EMPTY`: 21 bytes are written behind the end of a result of 6 bytes. -/
theorem multiPointZ_empty_overrun :
    (.multiPoint [] : Content true false).WellFormed ∧
      roundTrip (fun _ => 0) false (describe true true ⟨4326, true, false, .multiPoint []⟩) =
        .error .outOfBounds :=
  ⟨trivial, rfl⟩

end Babelfish.Common.Spatial
