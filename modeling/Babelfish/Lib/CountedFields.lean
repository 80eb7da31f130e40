import Babelfish.Lib.ByteReader

/-!
# Formats with counted strings

A format is a sequence of fields: bytes of a known number, or a count and as many units of two
bytes.  A writer that computes a count by one way and the units by another may announce something
else than it writes; the rules say exactly when a reader that follows the counts takes what was
written.

* `ReadsIff r xs a R`: `r` takes `a` from `xs` exactly when `R` holds, and otherwise not even with
  another rest.
* `ReadsIff.seq`: parts one after the other.
* `Field.readsIff`: a field is read exactly when its count is right.
* `ReadsIff.framed`: a body behind its length.
-/

namespace Babelfish.Lib

open List

variable {α β ι : Type} {r : ByteReader α} {xs ys : List UInt8} {a : α} {b : β} {R : Prop}
  {f : α → ByteReader β} {s : List UInt8}

def readSeq : List (ByteReader α) → ByteReader (List α)
  | [] => pure []
  | r :: rs => do
    let a ← r
    let as ← readSeq rs
    return a :: as

/-- A length of `k` bytes and a body of this length, which `r` takes as a whole. -/
def framed (k : Nat) (r : ByteReader α) : ByteReader α := do
  let n ← readWord k
  let body ← takeBytes n
  match r body with
  | some (a, []) => pure a
  | _ => refuse

/-- **The reader takes `a` from `xs` exactly when `R` holds.** -/
structure ReadsIff (r : ByteReader α) (xs : List UInt8) (a : α) (R : Prop) : Prop where
  reads : R → Reads r xs a
  only : ∀ rest rest', r (xs ++ rest) = some (a, rest') → R ∧ rest' = rest

/-! ### Readers on what follows -/

theorem bind_apply (r : ByteReader α) : (r >>= f) s = (r s).bind fun p => f p.1 p.2 :=
  rfl

theorem bind_eq_some {p : β × List UInt8} :
    (r >>= f) s = some p ↔ ∃ a s', r s = some (a, s') ∧ f a s' = some p := by
  rw [bind_apply, Option.bind_eq_some_iff]
  constructor
  · rintro ⟨⟨a, s'⟩, hr, hf⟩
    exact ⟨a, s', hr, hf⟩
  · rintro ⟨a, s', hr, hf⟩
    exact ⟨⟨a, s'⟩, hr, hf⟩

theorem Reads.bind_iff (h : Reads r xs a) : Reads (r >>= f) (xs ++ ys) b ↔ Reads (f a) ys b := by
  refine ⟨fun hbind rest => ?_, fun hf => h.bind hf⟩
  have hrest := hbind rest
  rwa [bind_apply, append_assoc, h (ys ++ rest)] at hrest

theorem takeBytes_eq_some {n : Nat} {c s' : List UInt8} :
    takeBytes n s = some (c, s') ↔ n ≤ s.length ∧ s.take n = c ∧ s.drop n = s' := by
  unfold takeBytes
  split <;> next h => simp [h]

theorem readWord_leBytes (k n : Nat) (rest : List UInt8) :
    readWord k (leBytes k n ++ rest) = some (n % 256 ^ k, rest) := by
  have htake := Reads.takeBytes (leBytes k n) rest
  rw [length_leBytes] at htake
  rw [readWord, bind_apply, htake]
  exact congrArg (fun m => some (m, rest)) (leNat_leBytes k n)

theorem takeBytes_append {n : Nat} {rest rest' : List UInt8}
    (h : takeBytes n (xs ++ rest) = some (xs, rest')) : n = xs.length ∧ rest' = rest := by
  obtain ⟨hle, htake, hdrop⟩ := takeBytes_eq_some.mp h
  have hn : n = xs.length := by
    have hlen := congrArg List.length htake
    rwa [length_take, Nat.min_eq_left hle] at hlen
  subst hn
  rw [drop_left] at hdrop
  exact ⟨rfl, hdrop.symm⟩

theorem length_of_readSeq {rs : List (ByteReader α)} {s' : List UInt8} {as : List α}
    (h : readSeq rs s = some (as, s')) : as.length = rs.length := by
  induction rs generalizing s s' as with
  | nil =>
    cases h
    rfl
  | cons r rs ih =>
    obtain ⟨a, s₁, -, hrest⟩ := bind_eq_some.mp h
    obtain ⟨bs, s₂, hbs, hpure⟩ := bind_eq_some.mp hrest
    cases hpure
    rw [length_cons, length_cons, ih hbs]

/-! ### Exactly when -/

namespace ReadsIff

theorem iff (h : ReadsIff r xs a R) : Reads r xs a ↔ R :=
  ⟨fun hr => (h.only [] [] (hr [])).1, h.reads⟩

theorem of_reads (h : Reads r xs a) (hR : R) : ReadsIff r xs a R := by
  refine ⟨fun _ => h, fun rest rest' hr => ⟨hR, ?_⟩⟩
  rw [h rest] at hr
  cases hr
  rfl

/-- **Parts one after the other** are read exactly when each of them is. -/
theorem seq {reader : ι → ByteReader α} {write : ι → List UInt8} {value : ι → α} {Right : ι → Prop}
    {l : List ι} (h : ∀ i ∈ l, ReadsIff (reader i) (write i) (value i) (Right i)) :
    ReadsIff (readSeq (l.map reader)) (l.flatMap write) (l.map value) (∀ i ∈ l, Right i) := by
  induction l with
  | nil =>
    refine ⟨fun _ => .pure [], fun rest rest' hr => ?_⟩
    cases hr
    exact ⟨by simp, rfl⟩
  | cons i l ih =>
    obtain ⟨hi, hl⟩ := forall_mem_cons.mp h
    have ih := ih hl
    rw [map_cons, flatMap_cons, map_cons]
    constructor
    · intro hall
      refine (hi.reads (hall i mem_cons_self)).bind ?_
      exact (ih.reads (forall_mem_cons.mp hall).2).map (.pure _)
    · intro rest rest' hr
      rw [append_assoc] at hr
      obtain ⟨a, s₁, ha, hrest⟩ := bind_eq_some.mp hr
      obtain ⟨as, s₂, has, hpure⟩ := bind_eq_some.mp hrest
      cases hpure
      obtain ⟨hright, rfl⟩ := hi.only _ _ ha
      obtain ⟨hrest, hend⟩ := ih.only _ _ has
      exact ⟨forall_mem_cons.mpr ⟨hright, hrest⟩, hend⟩

/-- **A body behind its length** is read exactly when the length is the body's, and the body is
read. -/
theorem framed (h : ReadsIff r xs a R) (k n : Nat) :
    Reads (Lib.framed k r) (leBytes k n ++ xs) a ↔ n % 256 ^ k = xs.length ∧ R := by
  constructor
  · intro hr
    have hframe := hr []
    rw [append_assoc, Lib.framed, bind_apply, readWord_leBytes, append_nil] at hframe
    obtain ⟨body, s', hbytes, hbody⟩ := bind_eq_some.mp hframe
    have hbytes : takeBytes (n % 256 ^ k) xs = some (body, s') := hbytes
    obtain ⟨hle, htake, hdrop⟩ := takeBytes_eq_some.mp hbytes
    rcases hrun : r body with _ | ⟨a', _ | ⟨x, rest⟩⟩
    · rw [hrun] at hbody
      cases hbody
    · rw [hrun] at hbody
      cases hbody
      have hlen : n % 256 ^ k = xs.length :=
        Nat.le_antisymm hle (drop_eq_nil_iff.mp hdrop)
      rw [hlen, take_length] at htake
      subst htake
      exact ⟨hlen, (h.only [] [] (by rwa [append_nil])).1⟩
    · rw [hrun] at hbody
      cases hbody
  · rintro ⟨hlen, hR⟩ rest
    have hrun := h.reads hR []
    rw [append_nil] at hrun
    rw [append_assoc, Lib.framed, bind_apply, readWord_leBytes, hlen]
    show (takeBytes xs.length >>= _) (xs ++ rest) = _
    rw [bind_apply, Reads.takeBytes xs rest]
    show (match r xs with | some (a, []) => (pure a : ByteReader α) | _ => refuse) rest = _
    rw [hrun]
    rfl

end ReadsIff

/-! ### Fields -/

/-- What a reader expects: a number of bytes, or a count of `k` bytes and the counted units. -/
inductive FieldKind where
  | fixed (n : Nat)
  | counted (k : Nat)
  deriving DecidableEq

/-- What a writer puts: bytes, or a count in `k` bytes and the units of a string. -/
inductive Field where
  | fixed (bytes : List UInt8)
  | counted (k count : Nat) (units : List UInt8)

namespace Field

def kind : Field → FieldKind
  | fixed bs => .fixed bs.length
  | counted k _ _ => .counted k

def bytes : Field → List UInt8
  | fixed bs => bs
  | counted k count units => leBytes k count ++ units

def content : Field → List UInt8
  | fixed bs => bs
  | counted _ _ units => units

/-- The count in its `k` bytes is the number of the units. -/
def Right : Field → Prop
  | fixed _ => True
  | counted k count units => 2 * (count % 256 ^ k) = units.length

end Field

def readField : FieldKind → ByteReader (List UInt8)
  | .fixed n => takeBytes n
  | .counted k => do
    let n ← readWord k
    takeBytes (2 * n)

def readFields (kinds : List FieldKind) : ByteReader (List (List UInt8)) :=
  readSeq (kinds.map readField)

/-- **A field is read exactly when its count is right.** -/
theorem Field.readsIff (f : Field) : ReadsIff (readField f.kind) f.bytes f.content f.Right := by
  cases f with
  | fixed bs => exact .of_reads (.takeBytes bs) trivial
  | counted k count units =>
    constructor
    · intro hright rest
      have hright : 2 * (count % 256 ^ k) = units.length := hright
      show (readWord k >>= fun n => takeBytes (2 * n)) (leBytes k count ++ units ++ rest) = _
      rw [bind_apply, append_assoc, readWord_leBytes]
      show takeBytes (2 * (count % 256 ^ k)) (units ++ rest) = _
      rw [hright]
      exact Reads.takeBytes units rest
    · intro rest rest' hr
      have hr : (readWord k >>= fun n => takeBytes (2 * n)) (leBytes k count ++ units ++ rest) =
        some (units, rest') := hr
      rw [bind_apply, append_assoc, readWord_leBytes] at hr
      exact takeBytes_append hr

theorem Field.readsIff_fields (fs : List Field) :
    ReadsIff (readFields (fs.map kind)) (fs.flatMap bytes) (fs.map content)
      (∀ f ∈ fs, f.Right) := by
  rw [readFields, map_map]
  exact .seq fun f _ => f.readsIff

end Babelfish.Lib
