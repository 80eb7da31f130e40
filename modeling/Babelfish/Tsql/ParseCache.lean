import Babelfish.Lib.Bytes

/-!
# The batch parse cache

The parse trees of batches are kept in a hash table in shared memory.  Its key is a 64-bit hash of
the query text, the database and the signature of the parameters; an entry keeps the text, the tree
and the datums back to back in one data area, with the signature, the number of datums before the
batch and the product version beside it.  All functions run under the lock of the cache, so that
each of them is one step, whichever session takes it.

* `Holds.fill`: what a filled entry holds.
* `hit_iff`: what a lookup compares.
* `lookup_evictLru`: an eviction changes no entry that stays.
-/

namespace Babelfish.Tsql.ParseCache

open Lib List

/-! ### Requests -/

/-- One parameter of a batch: the qualified name of its type (none for an invalid type), its mode
and its name. -/
structure Param where
  typname : Option (List UInt8)
  mode : UInt8
  name : Option (List UInt8)
deriving DecidableEq, Repr

/-- The hash functions of PostgreSQL: `hash_any_extended` with seed 0 and `hash_combine64`. -/
structure Hashes where
  hashAny : List UInt8 → UInt64
  hashCombine64 : UInt64 → UInt64 → UInt64

variable (hs : Hashes)

/-- `compute_antlr_batch_parse_cache_param_sig` -/
def computeParamSig (params : List Param) : UInt64 :=
  params.foldl (fun sig p =>
    let sig := hs.hashCombine64 sig (p.typname.elim 0 hs.hashAny)
    let sig := hs.hashCombine64 sig p.mode.toUInt64
    hs.hashCombine64 sig (p.name.elim 0 hs.hashAny)) (UInt64.ofNat params.length)

/-- `compute_antlr_batch_parse_cache_key` -/
def computeKey (queryText : List UInt8) (dbId : Int16) (paramSig : UInt64) : UInt64 :=
  hs.hashCombine64 (hs.hashCombine64 (hs.hashAny queryText) dbId.toInt64.toUInt64) paramSig

/-- What a session asks the cache for.  Strings are without their terminator, which occurs nowhere
inside them; a version string fits the field that an entry has for it. -/
structure Request where
  queryText : List UInt8
  dbId : Int16
  params : List Param
  preCacheNDatums : Int
  /-- `BABELFISH_VERSION_STR` of the session -/
  version : List UInt8
  text_nul : 0 ∉ queryText
  version_len : version.length < 32
deriving DecidableEq, Repr

namespace Request

def paramSig (hs : Hashes) (r : Request) : UInt64 := computeParamSig hs r.params

def key (hs : Hashes) (r : Request) : UInt64 := computeKey hs r.queryText r.dbId (r.paramSig hs)

end Request

/-! ### Entries -/

/-- `AntlrBatchParseCacheEntry` -/
structure CacheEntry where
  queryTextLen : Nat
  parseTreeLen : Nat
  parseDatumsLen : Nat
  bbfVersion : List UInt8
  paramSig : UInt64
  preCacheNDatums : Int
  createdAt : Int
  lastUsedAt : Int
  data : List UInt8
deriving DecidableEq, Repr

/-- `strncmp(s, text, n) == 0` for a text of length `n` at least. -/
def strncmpEq : List UInt8 → List UInt8 → Nat → Bool
  | _, _, 0 => true
  | a :: s, b :: text, n + 1 => a == b && (a == 0 || strncmpEq s text n)
  | _, _, _ + 1 => false

/-- `strlcpy(dst, src, size)`: the string in `dst` afterwards. -/
def strlcpy (src : List UInt8) (size : Nat) : List UInt8 := src.take (size - 1)

namespace CacheEntry

/-- `antlr_batch_parse_cache_entry_text`, an offset into the data area -/
def textOffset (_ : CacheEntry) : Nat := 0

variable (e : CacheEntry)

/-- `antlr_batch_parse_cache_entry_tree` -/
def treeOffset : Nat := e.textOffset + e.queryTextLen + 1

/-- `antlr_batch_parse_cache_entry_datums` -/
def datumsOffset : Nat := e.treeOffset + e.parseTreeLen + 1

/-- `antlr_batch_parse_cache_entry_matches` -/
def entryMatches (queryText : List UInt8) (paramSig : UInt64) : Bool :=
  e.queryTextLen == queryText.length &&
    strncmpEq (e.data.drop e.textOffset) queryText queryText.length && e.paramSig == paramSig

/-- `antlr_batch_parse_cache_entry_touch` -/
def touch (now : Int) : CacheEntry := { e with lastUsedAt := now }

/-- `antlr_batch_parse_cache_entry_fill` -/
def fill (found : Bool) (queryText tree datums version : List UInt8)
    (paramSig : UInt64) (preCacheNDatums now : Int) : CacheEntry :=
  let e := { e with
    queryTextLen := queryText.length
    parseTreeLen := tree.length
    parseDatumsLen := datums.length }
  let data := overwrite e.data e.textOffset (queryText ++ [0])
  let data := overwrite data e.treeOffset (tree ++ [0])
  let data := overwrite data e.datumsOffset (datums ++ [0])
  { e with
    data := data
    bbfVersion := strlcpy version 32
    paramSig := paramSig
    preCacheNDatums := preCacheNDatums
    lastUsedAt := now
    createdAt := if found then e.createdAt else now }

/-- `AntlrBatchParseCacheLookupResult`: the tree, and the datums if there are any. -/
structure LookupResult where
  parseTree : List UInt8
  parseDatums : Option (List UInt8)
deriving DecidableEq, Repr

/-- `antlr_batch_parse_cache_entry_copy` -/
def copy : LookupResult where
  parseTree := slice e.data e.treeOffset (e.treeOffset + e.parseTreeLen)
  parseDatums :=
    if e.parseDatumsLen > 0 then
      some (slice e.data e.datumsOffset (e.datumsOffset + e.parseDatumsLen))
    else none

end CacheEntry

open CacheEntry

/-! ### The table -/

abbrev Table := List (UInt64 × CacheEntry)

variable (t : Table) {k k' : UInt64}

/-- `antlr_batch_parse_cache_hash_remove` -/
def hashRemove (k : UInt64) : Table := t.filter fun p => p.1 != k

def hashStore (k : UInt64) (e : CacheEntry) : Table := (k, e) :: hashRemove t k

structure Settings where
  numSlots : Nat
  dataCapacity : Nat
deriving DecidableEq, Repr

/-- What an insertion finds that its arguments do not decide: the size limits of the session, the
order of the entries for an eviction, whether the table gives out another entry, what is left in the
memory of that entry, and the time. -/
structure PutChoice where
  minEntrySize : Nat
  maxEntrySize : Nat
  entriesArr : Table
  tableFull : Bool
  stale : CacheEntry
  now : Int

/-- The array is filled by a scan of the table and sorted by the time of the last use. -/
structure PutChoice.Valid (choice : PutChoice) (cfg : Settings) (t : Table) : Prop where
  scanned : ∃ scan : Table, scan.Perm t ∧ choice.entriesArr.Perm (scan.take cfg.numSlots)
  sorted : choice.entriesArr.Pairwise fun a b => a.2.lastUsedAt ≤ b.2.lastUsedAt
  slot : choice.stale.data.length = cfg.dataCapacity

def numToDrop (numEntries : Nat) : Nat := min (max 5 (numEntries * 10 / 100)) numEntries

/-- `antlr_batch_parse_cache_hash_evict_lru` -/
def hashEvictLru (entriesArr t : Table) : Table :=
  ((entriesArr.take (numToDrop entriesArr.length)).map Prod.fst).foldl hashRemove t

/-- `antlr_batch_parse_cache_entry_size_ok` -/
def entrySizeOk (cfg : Settings) (choice : PutChoice) (queryLen treeLen datumsLen : Nat) : Bool :=
  let total := queryLen + treeLen + datumsLen
  total + 3 ≤ cfg.dataCapacity && choice.minEntrySize * 1024 ≤ total &&
    (choice.maxEntrySize * 1024 == 0 || total ≤ choice.maxEntrySize * 1024)

/-- The condition under which `antlr_batch_parse_cache_get` uses an entry. -/
def usable (r : Request) (e : CacheEntry) : Bool :=
  e.entryMatches r.queryText (r.paramSig hs) && e.preCacheNDatums == r.preCacheNDatums &&
    e.bbfVersion == r.version && e.parseTreeLen != 0

/-- `antlr_batch_parse_cache_get` -/
def get (r : Request) (now : Int) (t : Table) : Option LookupResult × Table :=
  match t.lookup (r.key hs) with
  | none => (none, t)
  | some e =>
    if usable hs r e then (some e.copy, hashStore t (r.key hs) (e.touch now)) else (none, t)

/-- `antlr_batch_parse_cache_put`: whether the entry was stored, and the table afterwards. -/
def put (cfg : Settings) (choice : PutChoice) (r : Request) (tree : List UInt8)
    (datums : Option (List UInt8)) (t : Table) : Bool × Table :=
  let datums := datums.getD []
  let filled (e : CacheEntry) (found : Bool) : CacheEntry :=
    e.fill found r.queryText tree datums r.version (r.paramSig hs) r.preCacheNDatums choice.now
  if entrySizeOk cfg choice r.queryText.length tree.length datums.length then
    match t.lookup (r.key hs) with
    | some e =>
      if e.entryMatches r.queryText (r.paramSig hs) then
        (true, hashStore t (r.key hs) (filled e true))
      else (false, t)
    | none =>
      let t := if cfg.numSlots ≤ t.length then hashEvictLru choice.entriesArr t else t
      if choice.tableFull then (false, t)
      else (true, hashStore t (r.key hs) (filled choice.stale false))
  else (false, t)

/-- `antlr_batch_parse_cache_flush` -/
def flush : Table := (t.map Prod.fst).foldl hashRemove t

/-! ### Looking up in a changed table -/

theorem lookup_hashRemove : (hashRemove t k).lookup k' = if k' = k then none else t.lookup k' := by
  induction t with
  | nil => simp [hashRemove]
  | cons p t ih =>
    obtain ⟨kp, e⟩ := p
    by_cases hp : kp = k
    · have hdrop : hashRemove ((kp, e) :: t) k = hashRemove t k := by simp [hashRemove, hp]
      rw [hdrop, ih, hp]
      split_ifs with hk
      · rfl
      · rw [lookup_cons, beq_false_of_ne hk]
    · have hkeep : hashRemove ((kp, e) :: t) k = (kp, e) :: hashRemove t k := by
        simp [hashRemove, hp]
      rw [hkeep, lookup_cons, lookup_cons, ih]
      by_cases hk : k' = kp
      · rw [hk, beq_self_eq_true]
        exact (if_neg hp).symm
      · rw [beq_false_of_ne hk]

theorem lookup_hashStore (e : CacheEntry) :
    (hashStore t k e).lookup k' = if k' = k then some e else t.lookup k' := by
  rw [hashStore, lookup_cons, lookup_hashRemove]
  by_cases hk : k' = k
  · rw [hk, beq_self_eq_true]
    exact (if_pos rfl).symm
  · rw [if_neg hk, if_neg hk, beq_false_of_ne hk]

variable {e : CacheEntry}

theorem lookup_foldl_hashRemove {ks : List UInt64} {t : Table}
    (h : (ks.foldl hashRemove t).lookup k = some e) : t.lookup k = some e := by
  induction ks generalizing t with
  | nil => exact h
  | cons k' ks ih =>
    have h' := ih h
    rw [lookup_hashRemove] at h'
    split_ifs at h'
    exact h'

/-- **An eviction changes no entry that stays.** -/
theorem lookup_evictLru {arr t : Table} (h : (hashEvictLru arr t).lookup k = some e) :
    t.lookup k = some e :=
  lookup_foldl_hashRemove h

/-! ### What an entry holds -/

/-- The entry holds this text, tree and datums, for this signature, number of datums and version:
the three strings stand back to back in the data area. -/
structure Holds (e : CacheEntry) (text tree datums : List UInt8) (sig : UInt64) (nDatums : Int)
    (version : List UInt8) : Prop where
  textLen : e.queryTextLen = text.length
  treeLen : e.parseTreeLen = tree.length
  datumsLen : e.parseDatumsLen = datums.length
  sig : e.paramSig = sig
  nDatums : e.preCacheNDatums = nDatums
  version : e.bbfVersion = strlcpy version 32
  data : ∃ rest, e.data = text ++ [0] ++ (tree ++ [0]) ++ (datums ++ [0]) ++ rest

theorem overwrite_append (pre old xs : List UInt8) :
    overwrite (pre ++ old) pre.length xs = pre ++ xs ++ old.drop xs.length := by
  rw [overwrite, take_left, drop_length_add_append]

variable {tree datums version : List UInt8} {nDatums : Int} {sig : UInt64} {text : List UInt8}
  {found : Bool}

/-- **What a filled entry holds**, whatever stood in its data area before. -/
theorem Holds.fill {now : Int} :
    Holds (e.fill found text tree datums version sig nDatums now) text tree datums sig nDatums
      version := by
  have h₁ : overwrite e.data 0 (text ++ [0]) = text ++ [0] ++ e.data.drop (text ++ [0]).length :=
    overwrite_append [] e.data _
  have hoff : text.length + 1 = (text ++ [(0 : UInt8)]).length := by simp
  have h₂ : overwrite (text ++ [0] ++ e.data.drop (text ++ [0]).length) (text.length + 1)
      (tree ++ [0]) = text ++ [0] ++ (tree ++ [0]) ++
        (e.data.drop (text ++ [0]).length).drop (tree ++ [0]).length := by
    rw [hoff]
    exact overwrite_append _ _ _
  have hoff₂ : text.length + 1 + tree.length + 1 =
      (text ++ [(0 : UInt8)] ++ (tree ++ [0])).length := by simp; omega
  refine ⟨rfl, rfl, rfl, rfl, rfl, rfl,
    ((e.data.drop (text ++ [0]).length).drop (tree ++ [0]).length).drop (datums ++ [0]).length, ?_⟩
  simp only [CacheEntry.fill, textOffset, treeOffset, datumsOffset, Nat.zero_add]
  rw [h₁, h₂, hoff₂]
  exact overwrite_append _ _ _

theorem length_fill {now : Int}
    (hlen : text.length + tree.length + datums.length + 3 ≤ e.data.length) :
    (e.fill found text tree datums version sig nDatums now).data.length = e.data.length := by
  simp only [fill, textOffset, treeOffset, datumsOffset, Nat.zero_add]
  have h₁ : (overwrite e.data 0 (text ++ [0])).length = e.data.length :=
    length_overwrite (by simp; omega)
  have h₂ : (overwrite (overwrite e.data 0 (text ++ [0])) (text.length + 1)
      (tree ++ [0])).length = e.data.length := by
    rw [length_overwrite (by simp [h₁]; omega), h₁]
  rw [length_overwrite (by simp [h₂]; omega), h₂]

theorem Holds.touch (h : Holds e text tree datums sig nDatums version) (now : Int) :
    Holds (e.touch now) text tree datums sig nDatums version :=
  ⟨h.textLen, h.treeLen, h.datumsLen, h.sig, h.nDatums, h.version, h.data⟩

theorem strncmpEq_iff {s : List UInt8} (h : 0 ∉ text) :
    strncmpEq s text text.length = true ↔ text <+: s := by
  induction text generalizing s with
  | nil => simp [strncmpEq]
  | cons b text ih =>
    have hb : b ≠ 0 := fun hb => h (hb ▸ mem_cons_self)
    have htail : 0 ∉ text := fun hm => h (mem_cons_of_mem _ hm)
    cases s with
    | nil => simp [strncmpEq]
    | cons a s =>
      rw [length_cons, strncmpEq, Bool.and_eq_true, beq_iff_eq, Bool.or_eq_true, beq_iff_eq,
        cons_prefix_cons, ih htail]
      constructor
      · rintro ⟨rfl, ha | hs⟩
        · exact absurd ha hb
        · exact ⟨rfl, hs⟩
      · rintro ⟨rfl, hs⟩
        exact ⟨rfl, .inr hs⟩

/-- **What a lookup compares**: text, signature, number of datums and version. -/
theorem hit_iff {hs : Hashes} {r : Request} (h : Holds e text tree datums sig nDatums version) :
    usable hs r e = true ↔ text = r.queryText ∧ sig = r.paramSig hs ∧
      nDatums = r.preCacheNDatums ∧ strlcpy version 32 = r.version ∧ tree ≠ [] := by
  obtain ⟨rest, hdata⟩ := h.data
  have htext : (e.queryTextLen == r.queryText.length &&
      strncmpEq (e.data.drop e.textOffset) r.queryText r.queryText.length) = true ↔
      text = r.queryText := by
    rw [Bool.and_eq_true, beq_iff_eq, strncmpEq_iff r.text_nul, h.textLen, textOffset,
      List.drop_zero, hdata]
    constructor
    · rintro ⟨hlen, hpre⟩
      refine (prefix_of_prefix_length_le ?_ hpre (Nat.le_of_eq hlen)).eq_of_length hlen
      simp only [append_assoc]
      exact prefix_append _ _
    · rintro rfl
      refine ⟨rfl, ?_⟩
      simp only [append_assoc]
      exact prefix_append _ _
  have hlen : (e.parseTreeLen != 0) = true ↔ tree ≠ [] := by
    rw [bne_iff_ne, h.treeLen, ne_eq, length_eq_zero_iff]
  rw [usable, entryMatches, Bool.and_eq_true, Bool.and_eq_true, Bool.and_eq_true,
    Bool.and_eq_true, htext, hlen, beq_iff_eq, beq_iff_eq, beq_iff_eq, h.sig, h.nDatums, h.version]
  simp only [and_assoc]

theorem Holds.copy (h : Holds e text tree datums sig nDatums version) :
    e.copy.parseTree = tree ∧ e.copy.parseDatums.getD [] = datums := by
  obtain ⟨rest, hdata⟩ := h.data
  have htree : slice e.data e.treeOffset (e.treeOffset + e.parseTreeLen) = tree := by
    have hoff : e.treeOffset = (text ++ [(0 : UInt8)]).length := by
      simp [treeOffset, textOffset, h.textLen]
    rw [slice, drop_take, hoff, h.treeLen, hdata, Nat.add_sub_cancel_left]
    simp only [append_assoc (text ++ [0])]
    rw [drop_left]
    simp only [append_assoc]
    exact take_left
  have hdatums : slice e.data e.datumsOffset (e.datumsOffset + e.parseDatumsLen) = datums := by
    have hoff : e.datumsOffset = (text ++ [(0 : UInt8)] ++ (tree ++ [0])).length := by
      simp [datumsOffset, treeOffset, textOffset, h.textLen, h.treeLen]
      omega
    rw [slice, drop_take, hoff, h.datumsLen, hdata, Nat.add_sub_cancel_left]
    simp only [append_assoc (text ++ [0] ++ (tree ++ [0]))]
    rw [drop_left]
    simp only [append_assoc]
    exact take_left
  refine ⟨htree, ?_⟩
  rw [CacheEntry.copy]
  split_ifs
  · rw [hdatums]
    rfl
  · have hzero : datums.length = 0 := by
      have := h.datumsLen
      omega
    exact (length_eq_zero_iff.mp hzero).symm

end Babelfish.Tsql.ParseCache
