import Mathlib.Tactic.IntervalCases
import Babelfish.Lib.ByteReader

/-!
# Geometries and the binary form of PostGIS

The geometries that T-SQL and PostGIS exchange here, and the extended well-known binary form (EWKB)
in which PostGIS writes and reads them: a byte for the order of bytes, a word for the kind and the
dimensions, the SRID if there is one, and then counts and points.  The parts of a geometry have a
kind and dimensions of their own, which are written with flags (as PostGIS does) or as the numbers
of ISO; PostGIS reads both.

* `Geometry`: the SRID, the dimensions and the points.  A point has a Z exactly if the dimensions
  say so, and the same for M.
* `ewkb`: the binary form.
* `readEwkb`: how it is read.
* `readEwkb_ewkb`: what is written is read back.
-/

namespace Babelfish.Common.Spatial

open Lib

/-- The bits of a `double` that is there or not. -/
abbrev OptCoord (present : Bool) :=
  { c : Option UInt64 // c.isSome = present }

structure Point (hasZ hasM : Bool) where
  x : UInt64
  y : UInt64
  z : OptCoord hasZ
  m : OptCoord hasM
  deriving DecidableEq

/-- The kind of a geometry, with its points. -/
inductive Content (hasZ hasM : Bool) where
  | point (p : Point hasZ hasM)
  | line (ps : List (Point hasZ hasM))
  | polygon (rings : List (List (Point hasZ hasM)))
  | multiPoint (ps : List (Point hasZ hasM))
  | multiLine (lines : List (List (Point hasZ hasM)))
  deriving DecidableEq

structure Geometry where
  srid : UInt32
  hasZ : Bool
  hasM : Bool
  content : Content hasZ hasM
  deriving DecidableEq

/-! ### Writing -/

def coordBytes (c : UInt64) : List UInt8 :=
  leBytes 8 c.toNat

def OptCoord.bytes {present : Bool} (c : OptCoord present) : List UInt8 :=
  match c.1 with
  | some c => coordBytes c
  | none => []

section
variable {hasZ hasM : Bool}

def Point.xyBytes (p : Point hasZ hasM) : List UInt8 :=
  coordBytes p.x ++ coordBytes p.y

def Point.bytes (p : Point hasZ hasM) : List UInt8 :=
  p.xyBytes ++ p.z.bytes ++ p.m.bytes

/-- Points with their number. -/
def runBytes (ps : List (Point hasZ hasM)) : List UInt8 :=
  leBytes 4 ps.length ++ ps.flatMap Point.bytes

end

/-- How the parts of a geometry say what they are. -/
inductive PartCodes where
  | flags
  | iso
  deriving DecidableEq

/-- Kind and dimensions, with flags. -/
def flagWord (kind : Nat) (hasZ hasM hasSrid : Bool) : Nat :=
  kind + (if hasZ then 0x80000000 else 0) + (if hasM then 0x40000000 else 0)
    + (if hasSrid then 0x20000000 else 0)

/-- Kind and dimensions, as a number of ISO. -/
def isoWord (kind : Nat) (hasZ hasM : Bool) : Nat :=
  kind + (if hasZ then 1000 else 0) + (if hasM then 2000 else 0)

variable (codes : PartCodes)

def partHead (kind : Nat) (hasZ hasM : Bool) : List UInt8 :=
  match codes with
  | .flags => [0x01] ++ leBytes 4 (flagWord kind hasZ hasM false)
  | .iso => [0x01] ++ leBytes 4 (isoWord kind hasZ hasM)

namespace Content

variable {hasZ hasM : Bool}

def kind : Content hasZ hasM → Nat
  | point _ => 1
  | line _ => 2
  | polygon _ => 3
  | multiPoint _ => 4
  | multiLine _ => 5

def bytes (codes : PartCodes) : Content hasZ hasM → List UInt8
  | point p => p.bytes
  | line ps => runBytes ps
  | polygon rings => leBytes 4 rings.length ++ rings.flatMap runBytes
  | multiPoint ps =>
    leBytes 4 ps.length ++ ps.flatMap fun p => partHead codes 1 hasZ hasM ++ p.bytes
  | multiLine lines =>
    leBytes 4 lines.length ++ lines.flatMap fun ps => partHead codes 2 hasZ hasM ++ runBytes ps

def runs : Content hasZ hasM → List (List (Point hasZ hasM))
  | point p => [[p]]
  | line ps => [ps]
  | polygon rings => rings
  | multiPoint ps => ps.map fun p => [p]
  | multiLine lines => lines

def points (c : Content hasZ hasM) : List (Point hasZ hasM) :=
  c.runs.flatten

end Content

/-- The binary form of PostGIS. -/
def ewkb (hasSrid : Bool) (g : Geometry) : List UInt8 :=
  [0x01] ++ leBytes 4 (flagWord g.content.kind g.hasZ g.hasM hasSrid)
    ++ (if hasSrid then leBytes 4 g.srid.toNat else []) ++ g.content.bytes codes

/-! ### Reading -/

def readCoord : ByteReader UInt64 := do
  let n ← readWord 8
  return UInt64.ofNat n

def readOptCoord : (present : Bool) → ByteReader (OptCoord present)
  | true => do
    let c ← readCoord
    return ⟨some c, rfl⟩
  | false => return ⟨none, rfl⟩

def readPoint (hasZ hasM : Bool) : ByteReader (Point hasZ hasM) := do
  let x ← readCoord
  let y ← readCoord
  let z ← readOptCoord hasZ
  let m ← readOptCoord hasM
  return ⟨x, y, z, m⟩

def readRun (hasZ hasM : Bool) : ByteReader (List (Point hasZ hasM)) := do
  let n ← readWord 4
  readMany (readPoint hasZ hasM) n

/-- What the word of a kind says. -/
structure TypeWord where
  kind : Nat
  hasZ : Bool
  hasM : Bool
  hasSrid : Bool
  deriving DecidableEq

/-- Flags in the high bits, or thousands. -/
def decodeWord (w : Nat) : TypeWord :=
  let simple := w % 0x10000000
  { kind := simple % 1000
    hasZ := w.testBit 31 || simple / 1000 == 1 || simple / 1000 == 3
    hasM := w.testBit 30 || simple / 1000 == 2 || simple / 1000 == 3
    hasSrid := w.testBit 29 }

/-- The order of bytes, which is the low byte first here, and the word of the kind. -/
def readHead : ByteReader TypeWord := do
  let order ← readWord 1
  if order = 1 then do
    let w ← readWord 4
    return decodeWord w
  else refuse

/-- A part of the kind and the dimensions of its geometry. -/
def readPart {α : Type} (kind : Nat) (hasZ hasM : Bool) (r : ByteReader α) : ByteReader α := do
  let head ← readHead
  if head = ⟨kind, hasZ, hasM, false⟩ then r else refuse

def readContent (kind : Nat) (hasZ hasM : Bool) : ByteReader (Content hasZ hasM) :=
  match kind with
  | 1 => do
    let p ← readPoint hasZ hasM
    return .point p
  | 2 => do
    let ps ← readRun hasZ hasM
    return .line ps
  | 3 => do
    let n ← readWord 4
    let rings ← readMany (readRun hasZ hasM) n
    return .polygon rings
  | 4 => do
    let n ← readWord 4
    let ps ← readMany (readPart 1 hasZ hasM (readPoint hasZ hasM)) n
    return .multiPoint ps
  | 5 => do
    let n ← readWord 4
    let lines ← readMany (readPart 2 hasZ hasM (readRun hasZ hasM)) n
    return .multiLine lines
  | _ => refuse

def readSrid (hasSrid : Bool) : ByteReader UInt32 :=
  if hasSrid then do
    let n ← readWord 4
    return UInt32.ofNat n
  else return 0

def readGeometry : ByteReader Geometry := do
  let head ← readHead
  let srid ← readSrid head.hasSrid
  let content ← readContent head.kind head.hasZ head.hasM
  return ⟨srid, head.hasZ, head.hasM, content⟩

/-- The geometry of a binary form; nothing may follow it. -/
def readEwkb (bs : List UInt8) : Option Geometry :=
  match readGeometry bs with
  | some (g, []) => some g
  | _ => none

/-! ### What is written is read back -/

theorem reads_coord (c : UInt64) : Reads readCoord (coordBytes c) c := by
  unfold readCoord coordBytes
  refine (Reads.readWord (n := c.toNat) c.toNat_lt).map ?_
  rw [UInt64.ofNat_toNat]
  exact .pure c

theorem reads_optCoord {present : Bool} (c : OptCoord present) :
    Reads (readOptCoord present) c.bytes c := by
  obtain ⟨c, hc⟩ := c
  subst hc
  cases c with
  | none => exact .pure _
  | some c => exact (reads_coord c).map (.pure _)

section
variable {hasZ hasM : Bool}

theorem reads_point (p : Point hasZ hasM) : Reads (readPoint hasZ hasM) p.bytes p := by
  unfold Point.bytes Point.xyBytes
  rw [List.append_assoc, List.append_assoc]
  refine (reads_coord p.x).bind ((reads_coord p.y).bind ?_)
  exact (reads_optCoord p.z).bind ((reads_optCoord p.m).map (.pure p))

theorem reads_run {ps : List (Point hasZ hasM)} (h : ps.length < 2 ^ 32) :
    Reads (readRun hasZ hasM) (runBytes ps) ps :=
  (Reads.readWord h).bind (Reads.readMany fun p _ => reads_point p)

end

variable {kind : Nat}

theorem decodeWord_flagWord (hkind : 1 ≤ kind ∧ kind ≤ 5) (hasZ hasM hasSrid : Bool) :
    decodeWord (flagWord kind hasZ hasM hasSrid) = ⟨kind, hasZ, hasM, hasSrid⟩ := by
  obtain ⟨h1, h5⟩ := hkind
  interval_cases kind <;> revert hasZ hasM hasSrid <;> decide

theorem decodeWord_isoWord (hkind : 1 ≤ kind ∧ kind ≤ 5) (hasZ hasM : Bool) :
    decodeWord (isoWord kind hasZ hasM) = ⟨kind, hasZ, hasM, false⟩ := by
  obtain ⟨h1, h5⟩ := hkind
  interval_cases kind <;> revert hasZ hasM <;> decide

theorem flagWord_lt (hkind : kind ≤ 5) (hasZ hasM hasSrid : Bool) :
    flagWord kind hasZ hasM hasSrid < 256 ^ 4 := by
  unfold flagWord
  cases hasZ <;> cases hasM <;> cases hasSrid <;> simp <;> omega

theorem isoWord_lt (hkind : kind ≤ 5) (hasZ hasM : Bool) : isoWord kind hasZ hasM < 256 ^ 4 := by
  unfold isoWord
  cases hasZ <;> cases hasM <;> simp <;> omega

theorem reads_head {w : Nat} (hw : w < 256 ^ 4) :
    Reads readHead ([0x01] ++ leBytes 4 w) (decodeWord w) := by
  unfold readHead
  refine (Reads.readWord (k := 1) (n := 1) (by decide)).bind ?_
  rw [if_pos rfl]
  exact (Reads.readWord hw).map (Reads.pure _)

theorem reads_part {α : Type} {r : ByteReader α} {xs : List UInt8} {a : α} (h : Reads r xs a)
    (codes : PartCodes) (hkind : 1 ≤ kind ∧ kind ≤ 5) (hasZ hasM : Bool) :
    Reads (readPart kind hasZ hasM r) (partHead codes kind hasZ hasM ++ xs) a := by
  unfold readPart partHead
  cases codes with
  | flags =>
    refine (reads_head (flagWord_lt hkind.2 hasZ hasM false)).bind ?_
    rwa [if_pos (decodeWord_flagWord hkind hasZ hasM false)]
  | iso =>
    refine (reads_head (isoWord_lt hkind.2 hasZ hasM)).bind ?_
    rwa [if_pos (decodeWord_isoWord hkind hasZ hasM)]

/-- All counts of the geometry fit into a word. -/
def Content.Countable {hasZ hasM : Bool} (c : Content hasZ hasM) : Prop :=
  c.runs.length < 2 ^ 32 ∧ ∀ ps ∈ c.runs, ps.length < 2 ^ 32

theorem reads_content {hasZ hasM : Bool} {c : Content hasZ hasM} (h : c.Countable) :
    Reads (readContent c.kind hasZ hasM) (c.bytes codes) c := by
  cases c with
  | point p => exact (reads_point p).map (.pure _)
  | line ps => exact (reads_run (h.2 ps List.mem_cons_self)).map (.pure _)
  | polygon rings =>
    refine (Reads.readWord h.1).bind (Reads.map ?_ (Reads.pure _))
    exact Reads.readMany fun ps hps => reads_run (h.2 ps hps)
  | multiPoint ps =>
    have hlen : ps.length < 2 ^ 32 := by simpa [Content.runs] using h.1
    refine (Reads.readWord hlen).bind (Reads.map ?_ (Reads.pure _))
    exact Reads.readMany fun p _ => reads_part (reads_point p) codes (by decide) hasZ hasM
  | multiLine lines =>
    refine (Reads.readWord h.1).bind (Reads.map ?_ (Reads.pure _))
    exact Reads.readMany fun ps hps =>
      reads_part (reads_run (h.2 ps hps)) codes (by decide) hasZ hasM

theorem Content.kind_bounds {hasZ hasM : Bool} (c : Content hasZ hasM) :
    1 ≤ c.kind ∧ c.kind ≤ 5 := by
  cases c <;> exact ⟨by simp [kind], by simp [kind]⟩

/-- **What is written is read back**, in both ways to write the parts; without a flag for it, the
SRID is zero. -/
theorem readEwkb_ewkb {hasSrid : Bool} {g : Geometry}
    (hsrid : hasSrid = false → g.srid = 0) (h : g.content.Countable) :
    readEwkb (ewkb codes hasSrid g) = some g := by
  have hreads : Reads readGeometry (ewkb codes hasSrid g) g := by
    have hbounds := g.content.kind_bounds
    unfold readGeometry ewkb
    rw [List.append_assoc ([0x01] ++ leBytes 4 _)]
    refine (reads_head (flagWord_lt hbounds.2 g.hasZ g.hasM hasSrid)).bind ?_
    rw [decodeWord_flagWord hbounds]
    refine .bind (a := g.srid) ?_ ((reads_content codes h).map (.pure g))
    unfold readSrid
    cases hasSrid with
    | false =>
      rw [hsrid rfl]
      exact .pure 0
    | true =>
      refine (Reads.readWord (n := g.srid.toNat) g.srid.toNat_lt).map ?_
      rw [UInt32.ofNat_toNat]
      exact .pure g.srid
  have happly := hreads []
  rw [List.append_nil] at happly
  rw [readEwkb, happly]

end Babelfish.Common.Spatial
