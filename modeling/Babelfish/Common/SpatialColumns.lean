import Babelfish.Common.SpatialBytea
import Babelfish.Common.SpatialCopy
import Babelfish.Common.Ewkb

/-!
# Points in columns

The loops of `construct_result_bytea` that take points apart: from the binary form of PostGIS, where
the coordinates of a point stand together, to columns with all X and Y, all Z and all M.  Each lemma
says what a loop has appended to the result, for any number of rings, parts and points.  Z and M are
settled on the way: one of them that is no number becomes the one that the code has for that.

* `columns`: the three columns; `Point.settled`: a point as it is written in them.
* `copyXyCoords_writes`, `copyZCoords_writes`, `copyMCoords_writes`: the columns of one run of
  points.
* `copyRings_writes`: a pass over the rings of a polygon.
* `copyPass_writes`: a pass over the parts of a geometry of several parts.
-/

namespace Babelfish.Common.Spatial

open Lib List Point

variable {done : Nat} {present : Bool}

/-! ### The bytes of a point -/

theorem length_coordBytes (c : UInt64) : (coordBytes c).length = 8 :=
  length_leBytes 8 _

theorem OptCoord.length_bytes (c : OptCoord present) :
    c.bytes.length = if present then 8 else 0 := by
  obtain ⟨c, rfl⟩ := c
  cases c with
  | none => rfl
  | some c => exact length_coordBytes c

def OptCoord.Finite {present : Bool} (c : OptCoord present) : Prop :=
  ∀ v ∈ c.1, notFinite v.toNat = false

/-- Z or M as it is written: what is no number becomes `SPECIFIC_NAN`. -/
def OptCoord.settled {present : Bool} (c : OptCoord present) : OptCoord present :=
  ⟨c.1.map fun v => if isNan v.toNat then 0xfff8000000000000 else v, by
    rw [Option.isSome_map, c.2]⟩

theorem OptCoord.Finite.settled {c : OptCoord present} (h : c.Finite) : c.settled = c := by
  obtain ⟨_ | v, hv⟩ := c
  · rfl
  · have hnan : isNan v.toNat = false := by
      rw [isNan, h v rfl]
      rfl
    simp [OptCoord.settled, hnan]

section
variable {hasZ hasM : Bool} (p : Point hasZ hasM)

def Point.Finite : Prop :=
  notFinite p.x.toNat = false ∧ notFinite p.y.toNat = false ∧ p.z.Finite ∧ p.m.Finite

def Point.settled : Point hasZ hasM :=
  { p with z := p.z.settled, m := p.m.settled }

theorem map_settled {ps : List (Point hasZ hasM)} (h : ∀ p ∈ ps, p.Finite) :
    ps.map settled = ps := by
  refine (map_congr_left fun p hp => ?_).trans (map_id ps)
  rw [settled, (h p hp).2.2.1.settled, (h p hp).2.2.2.settled]
  rfl

theorem Point.length_xyBytes : p.xyBytes.length = 16 := by
  rw [xyBytes, length_append, length_coordBytes, length_coordBytes]

theorem Point.length_bytes : p.bytes.length = stride hasZ hasM := by
  rw [bytes, length_append, length_append, p.length_xyBytes, p.z.length_bytes,
    p.m.length_bytes, stride_cases]

variable (ps : List (Point hasZ hasM))

theorem length_points : (ps.flatMap bytes).length = ps.length * stride hasZ hasM :=
  length_flatMap_of_length_eq fun p _ => p.length_bytes

theorem point_places {bs : List UInt8} {src : Nat} {p : Point hasZ hasM}
    (h : OccursAt bs src p.bytes) :
    OccursAt bs src p.xyBytes ∧ OccursAt bs (src + 16) p.z.bytes ∧
      OccursAt bs (src + 16 + if hasZ then 8 else 0) p.m.bytes := by
  have hz := h.left.right
  have hm := h.right
  rw [p.length_xyBytes] at hz
  rw [length_append, p.length_xyBytes, p.z.length_bytes, ← Nat.add_assoc] at hm
  exact ⟨h.left.left, hz, hm⟩

/-- All X and Y, all Z and all M. -/
def columns : List UInt8 :=
  ps.flatMap Point.xyBytes ++ ps.flatMap (fun p => p.z.bytes) ++ ps.flatMap fun p => p.m.bytes

theorem columns_settled :
    columns (ps.map settled) =
      ps.flatMap xyBytes ++ (ps.flatMap (fun p => p.z.settled.bytes)
        ++ ps.flatMap fun p => p.m.settled.bytes) := by
  rw [columns, flatMap_map, flatMap_map, flatMap_map, append_assoc]
  rfl

theorem length_xyColumn : (ps.flatMap xyBytes).length = ps.length * 16 :=
  length_flatMap_of_length_eq fun p _ => p.length_xyBytes

theorem length_column (v : Point hasZ hasM → OptCoord present) (ps : List (Point hasZ hasM)) :
    (ps.flatMap fun p => (v p).bytes).length = if present then ps.length * 8 else 0 := by
  rw [length_flatMap_of_length_eq fun p _ => (v p).length_bytes]
  cases present <;> simp

theorem length_columns : (columns ps).length = ps.length * stride hasZ hasM := by
  rw [columns, length_append, length_append, length_xyColumn,
    length_column fun p => p.z, length_column fun p => p.m, stride_cases]
  cases hasZ <;> cases hasM <;> simp <;> omega

theorem column_eq_nil (v : Point hasZ hasM → OptCoord present) (ps : List (Point hasZ hasM))
    (h : present = false) : (ps.flatMap fun p => (v p).bytes) = [] := by
  refine eq_nil_of_length_eq_zero ?_
  rw [length_column v, h]
  rfl

end

section
variable {E : MemFault String → Prop} {size pos dst src : Nat} {bytes : List UInt8}
  {hasZ hasM : Bool} {v : OptCoord present} {p : Point hasZ hasM}

/-! ### One run of points -/

theorem copyCoordWithNanCheck_writes (hpresent : present = true)
    (hsrc : OccursAt bytes src v.bytes) (hdst : dst = pos) :
    Writes E size pos (copyCoordWithNanCheck bytes src dst) v.settled.bytes id := by
  have hlen : v.bytes.length = 8 := by
    rw [v.length_bytes, hpresent]
    rfl
  obtain ⟨_ | v, hv⟩ := v
  · rw [hpresent] at hv
    cases hv
  · have hsettled : OptCoord.bytes (OptCoord.settled ⟨some v, hv⟩) =
        if isNan (leNat (coordBytes v)) then specificNan else coordBytes v := by
      have hlt : v.toNat < 256 ^ 8 := v.toNat_lt
      show coordBytes (if isNan v.toNat then _ else v) = _
      rw [coordBytes, coordBytes, leNat_leBytes, Nat.mod_eq_of_lt hlt]
      split
      · decide
      · rfl
    rw [hsettled]
    exact .after (hsrc.readAt_eq hlen) (.writeAt hdst)

theorem point_of_run {pre post : List (Point hasZ hasM)}
    (hsrc : OccursAt bytes src ((pre ++ p :: post).flatMap Point.bytes))
    (hsmall : bytes.length ≤ 2 ^ 30) :
    OccursAt bytes (src + u32 (pre.length * stride hasZ hasM)) p.bytes := by
  have hp := hsrc.part
  rw [length_points] at hp
  have hle := hp.le
  rwa [u32_eq (by omega)]

section
variable {ps : List (Point hasZ hasM)} (hsrc : OccursAt bytes src (ps.flatMap Point.bytes))
  (hsmall : bytes.length ≤ 2 ^ 30)
include hsrc hsmall

theorem copyXyCoords_writes (hdst : dst = pos) :
    Writes E size pos (copyXyCoords bytes dst src ps.length (stride hasZ hasM))
      (ps.flatMap xyBytes) id := by
  refine .forList (r := fun _ => id) ?_
  rintro pre p post rfl
  have hp := point_of_run hsrc hsmall
  refine .after ((point_places hp).1.readAt_eq p.length_xyBytes) (.writeAt ?_)
  rw [length_xyColumn, hdst]

theorem copyZCoords_writes (hz : hasZ = true) (hdst : dst + ps.length * 16 = pos) :
    Writes E size pos (copyZCoords bytes dst src ps.length (stride hasZ hasM))
      (ps.flatMap fun p => p.z.settled.bytes) id := by
  refine .forList (r := fun _ => id) ?_
  rintro pre p post rfl
  have hp := point_of_run hsrc hsmall
  refine copyCoordWithNanCheck_writes hz (point_places hp).2.1 ?_
  rw [length_column fun p => p.z.settled, if_pos hz, hdst]

theorem copyMCoords_writes (hm : hasM = true)
    (hdst : dst + ps.length * 16 + (if hasZ then ps.length * 8 else 0) = pos) :
    Writes E size pos (copyMCoords bytes dst src ps.length (stride hasZ hasM) hasZ)
      (ps.flatMap fun p => p.m.settled.bytes) id := by
  refine .forList (r := fun _ => id) ?_
  rintro pre p post rfl
  have hp := point_of_run hsrc hsmall
  refine copyCoordWithNanCheck_writes hm (point_places hp).2.2 ?_
  rw [length_column fun p => p.m.settled, if_pos hm, hdst]

end

/-! ### The rings of a polygon -/

theorem flatMap_flatten {α β : Type} (l : List (List α)) (f : α → List β) :
    l.flatten.flatMap f = l.flatMap fun xs => xs.flatMap f := by
  rw [← flatMap_id, flatMap_assoc]
  rfl

variable (ps : List (Point hasZ hasM)) {body : Nat → CopyPass → Checked CopyPass}

theorem length_runBytes : (runBytes ps).length = 4 + ps.length * stride hasZ hasM := by
  rw [runBytes, length_append, length_leBytes, length_points]

theorem readU32_of_occurs {n : Nat} (h : OccursAt bytes src (leBytes 4 n)) (hn : n < 2 ^ 32) :
    readU32 bytes src = .ok n := by
  unfold readU32
  rw [h.readAt_eq (length_leBytes 4 n), ok_bind, leNat_leBytes]
  exact congrArg Except.ok (Nat.mod_eq_of_lt hn)

/-- A pass over the rings: `copy` appends what `part` is of each point. -/
theorem copyRings_writes {rings : List (List (Point hasZ hasM))}
    {copy : Nat → Nat → Nat → List UInt8 → Checked (List UInt8)}
    (part : Point hasZ hasM → List UInt8) (hsrc : OccursAt bytes src (rings.flatMap runBytes))
    (hcount : ∀ r ∈ rings, r.length < 2 ^ 32) (hcopy : ∀ pre r post src, rings = pre ++ r :: post →
      OccursAt bytes src (r.flatMap Point.bytes) →
      Writes E size (pos + (pre.flatten.flatMap part).length)
        (copy src pre.flatten.length r.length) (r.flatMap part) id) :
    Writes E size pos
      (fun buf => forRange (copyRing bytes (stride hasZ hasM) copy) 0 rings.length ⟨src, 0, buf⟩)
      (rings.flatten.flatMap part)
      fun buf => ⟨src + (rings.flatMap runBytes).length, rings.flatten.length, buf⟩ := by
  rw [flatMap_flatten]
  refine .forList (r := fun pre buf =>
    CopyPass.mk (src + (pre.flatMap runBytes).length) pre.flatten.length buf) ?_
  intro pre r post hrings
  have hr : OccursAt bytes (src + (pre.flatMap runBytes).length) (runBytes r) := by
    rw [hrings] at hsrc
    exact hsrc.part
  have hpoints := hr.right
  rw [length_leBytes] at hpoints
  have hstep := hcopy pre r post _ hrings hpoints
  rw [flatMap_flatten] at hstep
  refine .after (readU32_of_occurs hr.left (hcount r (by simp [hrings]))) ?_
  dsimp only
  refine hstep.map fun buf => ?_
  rw [flatMap_append, flatMap_singleton, length_append, length_runBytes,
    flatten_append, flatten_singleton, length_append, Nat.add_assoc, Nat.add_assoc]
  rfl

/-! ### The parts of a geometry of several parts -/

/-- A pass over items that are written as `write`: `body` appends what `part` is of each item. -/
theorem copyPass_writes {β : Type} {l : List β}
    {write : β → List UInt8} (part : β → List UInt8) (hsrc : OccursAt bytes src (l.flatMap write))
    (hdst : dst + done = pos) (hbody : ∀ b ∈ l, ∀ i src done, OccursAt bytes src (write b) →
      Writes E size (dst + done) (fun buf => body i ⟨src, done, buf⟩) (part b)
        fun buf => ⟨src + (write b).length, done + (part b).length, buf⟩) :
    Writes E size pos (fun buf => forRange body 0 l.length ⟨src, done, buf⟩) (l.flatMap part)
      fun buf => ⟨src + (l.flatMap write).length, done + (l.flatMap part).length, buf⟩ := by
  refine .forList (r := fun pre buf => CopyPass.mk (src + (pre.flatMap write).length)
    (done + (pre.flatMap part).length) buf) ?_
  rintro pre b post rfl
  have hstep := hbody b (by simp) pre.length _ (done + (pre.flatMap part).length) hsrc.part
  rw [← Nat.add_assoc, hdst] at hstep
  simpa [Nat.add_assoc] using hstep

theorem copyPointXy_writes {head : List UInt8} {step off i : Nat}
    (hsrc : OccursAt bytes src (head ++ p.bytes)) (hstep : (head ++ p.bytes).length = step)
    (hoff : head.length = off) (hsmall : bytes.length ≤ 2 ^ 30) (hsize : size < 2 ^ 32) :
    Writes E size (dst + done) (fun buf => copyPointXy bytes dst step off i ⟨src, done, buf⟩)
      p.xyBytes fun buf => ⟨src + step, done + p.xyBytes.length, buf⟩ := by
  have hle := hsrc.le
  have hxy := p.length_xyBytes
  subst hoff
  refine .of_fit fun hfit => .after ((point_places hsrc.right).1.readAt_eq hxy) ?_
  dsimp only
  refine (Writes.writeAt rfl).map fun buf => ?_
  rw [u32_eq (by omega), u32_eq (by omega), hxy]
  rfl

theorem copyPointCoord_writes {item : List UInt8} {step off i : Nat}
    (hpresent : present = true) (hsrc : OccursAt bytes src item) (hstep : item.length = step)
    (hv : OccursAt bytes (src + off) v.bytes) (hsmall : bytes.length ≤ 2 ^ 30)
    (hsize : size < 2 ^ 32) :
    Writes E size (dst + done) (fun buf => copyPointCoord bytes dst step off i ⟨src, done, buf⟩)
      v.settled.bytes fun buf => ⟨src + step, done + v.settled.bytes.length, buf⟩ := by
  have hle := hsrc.le
  have hlen : v.settled.bytes.length = 8 := by
    rw [v.settled.length_bytes, if_pos hpresent]
  refine .of_fit fun hfit => ?_
  unfold copyPointCoord
  dsimp only
  refine (copyCoordWithNanCheck_writes hpresent hv rfl).map fun buf => ?_
  rw [u32_eq (by omega), u32_eq (by omega), hlen]
  rfl

def lineBytes : List UInt8 :=
  partHead .flags 2 hasZ hasM ++ runBytes ps

theorem length_partHead (codes : PartCodes) (kind : Nat) (hasZ hasM : Bool) :
    (partHead codes kind hasZ hasM).length = 5 := by
  cases codes <;> rw [partHead, length_append, length_leBytes] <;> rfl

theorem length_lineBytes : (lineBytes ps).length = 9 + ps.length * stride hasZ hasM := by
  rw [lineBytes, length_append, length_partHead, length_runBytes]
  omega

theorem lineBytes_places {ps : List (Point hasZ hasM)} (h : OccursAt bytes src (lineBytes ps)) :
    OccursAt bytes (src + 5) (leBytes 4 ps.length) ∧
      OccursAt bytes (src + 9) (ps.flatMap Point.bytes) := by
  have hrun := h.right
  rw [length_partHead] at hrun
  have hpoints := hrun.right
  rw [length_leBytes] at hpoints
  exact ⟨hrun.left, hpoints⟩

/-- A pass over the lines: `body` appends what `part` is of each point. -/
theorem copyLines_writes {lines : List (List (Point hasZ hasM))}
    (part : Point hasZ hasM → List UInt8) (hsrc : OccursAt bytes src (lines.flatMap lineBytes))
    (hcount : ∀ ps ∈ lines, ps.length < 2 ^ 32) (hsmall : bytes.length ≤ 2 ^ 30)
    (hdst : dst + done = pos)
    (hbody : ∀ (p : Point hasZ hasM) i src done, OccursAt bytes src p.bytes →
      Writes E size (dst + done) (fun buf => body i ⟨src, done, buf⟩) (part p)
        fun buf => ⟨src + p.bytes.length, done + (part p).length, buf⟩) :
    Writes E size pos (fun buf => do
      let s ← forRange (copyLine bytes body) 0 lines.length ⟨src, done, buf⟩
      return s.buf) (lines.flatten.flatMap part) id := by
  rw [flatMap_flatten]
  refine (copyPass_writes _ hsrc hdst fun ps hps i src done hline => ?_).map fun _ => rfl
  obtain ⟨hn, hpoints⟩ := lineBytes_places hline
  have hle := hpoints.le
  have hpass := copyPass_writes part hpoints (show dst + done = _ from rfl) fun p _ => hbody p
  rw [Nat.add_assoc, length_points, ← length_lineBytes] at hpass
  refine .after (readU32_of_occurs hn (hcount ps hps)) ?_
  dsimp only
  rwa [u32_eq (by omega)]

end

end Babelfish.Common.Spatial
