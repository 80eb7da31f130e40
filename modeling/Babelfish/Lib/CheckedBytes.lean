import Babelfish.Lib.Bytes
import Babelfish.Lib.Except

/-!
# Accesses to memory that are checked

Code that reads a block of bytes and fills another one, with every access checked against the
length of its block: an access outside is a fault of its own, apart from the errors that the code
raises.

* `readAt`, `writeAt`, `elemAt`: the accesses.
* `forRange`: a counting loop.
* `Ends E x Q`: if `x` returns, its result satisfies `Q`, and if it fails, the failure satisfies
  `E`.  With `E` false of all failures, `x` returns; with `E` false of `outOfBounds` alone, no
  access of `x` is outside.
* `Ends.bind`, `Ends.forRange`, `Ends.forList`, `Ends.foldlM`: the rules for a sequence and for
  loops.
* `Filled`: a block of which a first part has been written; `Filled.writeAt` writes on.
* `Writes`: code that fills a block writes given bytes behind what is there; `Writes.seq`,
  `Writes.forList`, `Writes.forCount` put such code together, and `Writes.ends` reads the block.
-/

namespace Babelfish.Lib

open List

/-- Why checked code fails: an access outside its block, or an error of the code. -/
inductive MemFault (ε : Type) where
  | outOfBounds
  | raised (e : ε)
  deriving DecidableEq, Repr

variable {ε φ α β σ τ : Type}
variable {a : α} {s : σ} {i n : Nat} {l : List α} {bs buf : List UInt8}
  {body : Nat → σ → Except φ σ} {E : MemFault ε → Prop} {pos : Nat} {f : α → List UInt8}

def readAt (bs : List UInt8) (pos len : Nat) : Except (MemFault ε) (List UInt8) :=
  if pos + len ≤ bs.length then .ok (slice bs pos (pos + len)) else .error .outOfBounds

def writeAt (buf : List UInt8) (pos : Nat) (xs : List UInt8) :
    Except (MemFault ε) (List UInt8) :=
  if pos + xs.length ≤ buf.length then .ok (overwrite buf pos xs) else .error .outOfBounds

def elemAt (l : List α) (i : Nat) : Except (MemFault ε) α :=
  match l[i]? with
  | some a => .ok a
  | none => .error .outOfBounds

/-- `for (j = i; j < i + n; j++)` -/
def forRange (body : Nat → σ → Except φ σ) : Nat → Nat → σ → Except φ σ
  | _, 0, s => .ok s
  | i, n + 1, s => body i s >>= forRange body (i + 1) n

theorem readAt_eq {len : Nat} (h : pos + len ≤ bs.length) :
    (readAt bs pos len : Except (MemFault ε) (List UInt8)) = .ok (slice bs pos (pos + len)) :=
  if_pos h

theorem elemAt_eq (h : i < l.length) : (elemAt l i : Except (MemFault ε) α) = .ok l[i] := by
  simp [elemAt, h]

theorem length_slice_add {a : Nat} (h : a + n ≤ l.length) : (slice l a (a + n)).length = n := by
  rw [length_slice h]
  omega

/-! ### What a computation ends with -/

/-- **If `x` returns, its result satisfies `Q`; if it fails, the failure satisfies `E`.** -/
def Ends (E : φ → Prop) (x : Except φ α) (Q : α → Prop) : Prop :=
  match x with
  | .ok a => Q a
  | .error e => E e

namespace Ends

variable {E : φ → Prop} {x : Except φ α} {P Q : α → Prop} {I : List β → σ → Prop}

theorem ok (h : Q a) : Ends E (.ok a : Except φ α) Q := h

theorem bind {f : α → Except φ β} {R : β → Prop} (h : Ends E x Q) (hf : ∀ a, Q a → Ends E (f a) R) :
    Ends E (x >>= f) R := by
  cases x with
  | ok a => exact hf a h
  | error e => exact h

theorem mono (h : Ends E x P) (hPQ : ∀ a, P a → Q a) : Ends E x Q := by
  cases x with
  | ok a => exact hPQ a h
  | error e => exact h

theorem ite {c : Prop} [Decidable c] {y : Except φ α} (hx : c → Ends E x Q) (hy : ¬c → Ends E y Q) :
    Ends E (if c then x else y) Q := by
  split_ifs with hc
  · exact hx hc
  · exact hy hc

theorem forRange {I : Nat → σ → Prop} (hs : I i s)
    (hbody : ∀ j t, i ≤ j → j < i + n → I j t → Ends E (body j t) (I (j + 1))) :
    Ends E (Lib.forRange body i n s) (I (i + n)) := by
  induction n generalizing i s with
  | zero => exact hs
  | succ n ih =>
    refine (hbody i s (Nat.le_refl i) (by omega) hs).bind fun t ht => ?_
    have h := ih ht fun j u hj hlt hu => hbody j u (by omega) (by omega) hu
    rwa [show i + 1 + n = i + (n + 1) by omega] at h

theorem forCount {I : Nat → σ → Prop} (hs : I 0 s)
    (hbody : ∀ j t, j < n → I j t → Ends E (body j t) (I (j + 1))) :
    Ends E (Lib.forRange body 0 n s) (I n) := by
  have h : Ends E (Lib.forRange body 0 n s) (I (0 + n)) := by
    refine .forRange hs ?_
    intro j t _ hj ht
    exact hbody j t (by omega) ht
  rwa [Nat.zero_add] at h

/-- A loop over the elements of a list: `I` holds of the elements that have been passed. -/
theorem forList {l : List β} (hs : I [] s) (hbody : ∀ pre b post t, l = pre ++ b :: post → I pre t →
      Ends E (body pre.length t) (I (pre ++ [b]))) :
    Ends E (Lib.forRange body 0 l.length s) (I l) := by
  have hloop : Ends E (Lib.forRange body 0 l.length s) fun t => I (l.take l.length) t := by
    refine .forCount (I := fun i t => I (l.take i) t) hs ?_
    intro i t hi ht
    have hstep := hbody (l.take i) l[i] (l.drop (i + 1)) t (by simp) ht
    rwa [length_take_of_le (Nat.le_of_lt hi), take_append_getElem hi] at hstep
  rwa [take_length] at hloop

theorem foldlM {f : σ → β → Except φ σ} {l : List β} (hs : I [] s)
    (hf : ∀ pre b post t, l = pre ++ b :: post → I pre t → Ends E (f t b) (I (pre ++ [b]))) :
    Ends E (l.foldlM f s) (I l) := by
  have hloop : ∀ (post pre : List β) (t : σ), l = pre ++ post → I pre t →
      Ends E (post.foldlM f t) (I l) := by
    intro post
    induction post with
    | nil =>
      intro pre t hl ht
      rwa [hl, append_nil]
    | cons b post ih =>
      intro pre t hl ht
      rw [foldlM_cons]
      exact (hf pre b post t hl ht).bind fun u hu => ih (pre ++ [b]) u (by simp [hl]) hu
  exact hloop l [] s rfl hs

theorem exists_ok (h : Ends (fun _ => False) x Q) : ∃ a, x = .ok a ∧ Q a := by
  cases x with
  | ok a => exact ⟨a, rfl, h⟩
  | error e => exact h.elim

end Ends

theorem Ends.elemAt (h : i < l.length) : Ends E (Lib.elemAt l i) fun a => l[i]? = some a := by
  rw [elemAt_eq h]
  exact getElem?_eq_getElem h

/-! ### Reading what is known to be there -/

theorem OccursAt.readAt_eq {xs : List UInt8} (h : OccursAt bs pos xs) (hn : xs.length = n) :
    (Lib.readAt bs pos n : Except (MemFault ε) (List UInt8)) = .ok xs := by
  subst hn
  rw [Lib.readAt_eq h.le, h.slice_eq]

theorem OccursAt.part {pre post : List α} (h : OccursAt bs pos ((pre ++ a :: post).flatMap f)) :
    OccursAt bs (pos + (pre.flatMap f).length) (f a) := by
  rw [flatMap_append, flatMap_cons] at h
  exact h.right.left

theorem length_flatMap_of_length_eq (h : ∀ a ∈ l, (f a).length = n) :
    (l.flatMap f).length = l.length * n := by
  rw [length_flatMap, map_congr_left h, map_const', sum_replicate_nat]

/-- The parts that a loop over the indices of a list makes, when each is made from its element. -/
theorem flatMap_range_length {f : Nat → List β} {g : α → List β}
    (h : ∀ pre a post, l = pre ++ a :: post → f pre.length = g a) :
    (List.range l.length).flatMap f = l.flatMap g := by
  induction l generalizing f with
  | nil => rfl
  | cons a l ih =>
    have hfirst : f 0 = g a := h [] a l rfl
    rw [length_cons, range_succ_eq_map, flatMap_cons, flatMap_map, flatMap_cons, hfirst]
    congr 1
    refine ih fun pre b post hl => ?_
    exact h (a :: pre) b post (by rw [hl, cons_append])

/-! ### Blocks that are filled from the front -/

/-- A block of `size` bytes that begins with `c`. -/
structure Filled (size : Nat) (c buf : List UInt8) : Prop where
  begins : c <+: buf
  length : buf.length = size

theorem Filled.nil (buf : List UInt8) : Filled buf.length [] buf :=
  ⟨List.nil_prefix, rfl⟩

theorem Filled.writeAt {size : Nat} {c xs : List UInt8}
    (h : Filled size c buf) (hpos : pos = c.length) (hfit : pos + xs.length ≤ size) :
    Ends E (Lib.writeAt buf pos xs) (Filled size (c ++ xs)) := by
  obtain ⟨⟨rest, rfl⟩, hlen⟩ := h
  subst hpos
  rw [Lib.writeAt, if_pos (by omega)]
  refine ⟨⟨rest.drop xs.length, ?_⟩, ?_⟩
  · simp [overwrite, append_assoc]
  · rwa [length_overwrite (by omega)]

theorem Filled.eq {size : Nat} {c : List UInt8} (h : Filled size c buf) (hsize : c.length = size) :
    buf = c :=
  (h.begins.eq_of_length (hsize.trans h.length.symm)).symm

/-! ### Code that writes on -/

/-- **`f` writes `xs` at `pos`**: in a block that is filled up to `pos` and has room for `xs`, the
bytes `xs` follow, and the result is `r` of the block. -/
def Writes (E : MemFault ε → Prop) (size pos : Nat) (f : List UInt8 → Except (MemFault ε) σ)
    (xs : List UInt8) (r : List UInt8 → σ) : Prop :=
  ∀ c buf, c.length = pos → pos + xs.length ≤ size → Filled size c buf →
    Ends E (f buf) fun s => ∃ buf', s = r buf' ∧ Filled size (c ++ xs) buf'

namespace Writes

variable {E : MemFault ε → Prop} {size pos : Nat} {xs ys : List UInt8}
  {f : List UInt8 → Except (MemFault ε) σ} {r : List UInt8 → σ} {g : σ → Except (MemFault ε) τ}
  {r' : List UInt8 → τ}

theorem writeAt {p : Nat} (hp : p = pos) :
    Writes E size pos (fun buf => Lib.writeAt buf p xs) xs id := by
  intro c buf hc hfit hbuf
  exact (hbuf.writeAt (by omega) (by omega)).mono fun buf' h => ⟨buf', rfl, h⟩

theorem ok (r : List UInt8 → σ) : Writes E size pos (fun buf => .ok (r buf)) [] r := by
  intro c buf _ _ hbuf
  exact ⟨buf, rfl, by rwa [append_nil]⟩

theorem seq (hf : Writes E size pos f xs r)
    (hg : Writes E size (pos + xs.length) (fun buf => g (r buf)) ys r') :
    Writes E size pos (fun buf => f buf >>= g) (xs ++ ys) r' := by
  intro c buf hc hfit hbuf
  rw [length_append] at hfit
  refine (hf c buf hc (by omega) hbuf).bind ?_
  rintro s ⟨buf', rfl, hbuf'⟩
  rw [← append_assoc]
  exact hg _ buf' (by rw [length_append, hc]) (by omega) hbuf'

theorem map (hf : Writes E size pos f xs r) (hg : ∀ buf, g (r buf) = .ok (r' buf)) :
    Writes E size pos (fun buf => f buf >>= g) xs r' := by
  intro c buf hc hfit hbuf
  refine (hf c buf hc hfit hbuf).bind ?_
  rintro s ⟨buf', rfl, hbuf'⟩
  rw [hg]
  exact ⟨buf', rfl, hbuf'⟩

theorem of_fit (h : pos + xs.length ≤ size → Writes E size pos f xs r) : Writes E size pos f xs r :=
  fun c buf hc hfit => h hfit c buf hc hfit

theorem after {x : Except (MemFault ε) α} {g : α → List UInt8 → Except (MemFault ε) σ}
    (hx : x = .ok a) (hg : Writes E size pos (g a) xs r) :
    Writes E size pos (fun buf => x >>= fun a => g a buf) xs r := by
  rwa [hx]

theorem ite {present : Bool} {g : List UInt8 → Except (MemFault ε) (List UInt8)}
    (hg : present = true → Writes E size pos g xs id) (hxs : present = false → xs = []) :
    Writes E size pos (fun buf => if present then g buf else .ok buf) xs id := by
  cases present with
  | true => exact hg rfl
  | false =>
    rw [hxs rfl]
    exact ok id

/-- A loop over the elements of a list; `r` is the state behind the elements passed. -/
theorem forList {body : Nat → σ → Except (MemFault ε) σ} {l : List β} {w : β → List UInt8}
    {r : List β → List UInt8 → σ}
    (h : ∀ pre b post, l = pre ++ b :: post →
      Writes E size (pos + (pre.flatMap w).length) (fun buf => body pre.length (r pre buf)) (w b)
        (r (pre ++ [b]))) :
    Writes E size pos (fun buf => forRange body 0 l.length (r [] buf)) (l.flatMap w) (r l) := by
  intro c buf hc hfit hbuf
  refine .forList (I := fun pre s => ∃ buf', s = r pre buf' ∧
    Filled size (c ++ pre.flatMap w) buf') ⟨buf, rfl, by simpa using hbuf⟩ ?_
  rintro pre b post s hl ⟨buf', rfl, hbuf'⟩
  rw [flatMap_append, flatMap_singleton, ← append_assoc]
  refine h pre b post hl _ buf' (by rw [length_append, hc]) ?_ hbuf'
  rw [hl, flatMap_append, flatMap_cons, length_append, length_append] at hfit
  omega

/-- A loop from zero on; `r` is the state behind so many turns. -/
theorem forCount {body : Nat → σ → Except (MemFault ε) σ} {w : Nat → List UInt8}
    {r : Nat → List UInt8 → σ} (h : ∀ i < n, Writes E size (pos + ((List.range i).flatMap w).length)
      (fun buf => body i (r i buf)) (w i) (r (i + 1))) :
    Writes E size pos (fun buf => forRange body 0 n (r 0 buf)) ((List.range n).flatMap w)
      (r n) := by
  intro c buf hc hfit hbuf
  refine .forCount (I := fun i s => ∃ buf', s = r i buf' ∧
    Filled size (c ++ (range i).flatMap w) buf') ⟨buf, rfl, by simpa using hbuf⟩ ?_
  rintro i s hi ⟨buf', rfl, hbuf'⟩
  obtain ⟨k, rfl⟩ := Nat.exists_eq_add_of_le hi
  rw [range_add, flatMap_append, length_append] at hfit
  rw [range_succ, flatMap_append, flatMap_singleton] at hfit ⊢
  rw [length_append] at hfit
  rw [← append_assoc]
  exact h i hi _ buf' (by rw [length_append, hc]) (by omega) hbuf'

theorem ends (h : Writes E size 0 f xs r) (hsize : xs.length = size) (hbuf : buf.length = size) :
    Ends E (f buf) fun s => s = r xs := by
  refine (h [] buf rfl (by omega) (hbuf ▸ Filled.nil buf)).mono ?_
  rintro s ⟨buf', rfl, hbuf'⟩
  rw [hbuf'.eq hsize, nil_append]

end Writes

end Babelfish.Lib
