import Babelfish.Tsql.ParseCache

/-!
# Runs of the batch parse cache

Any number of sessions look batches up, insert and flush in any order; each of these is one step
under the lock of the cache.  A lookup compares the text, the signature, the number of datums and
the version with what the entry holds, but the database enters into the key only, and the parameters
into the signature only.

* `Inv`: every entry has the strings of the last insertion under its key.
* `run_inv`: the invariant holds after every run.
* `lookup_latest`: what a lookup returns, in a run without collisions.
* `other_database`: a run with a collision.
* `hashEvictLru_perm`, `run_bounds`: what an eviction leaves, and the bounds of the cache.
* `get_stored`: a stored batch is found.
-/

namespace Babelfish.Tsql.ParseCache

open Lib CacheEntry List

/-! ### Runs -/

/-- What has happened in the cache: a lookup with its result, an insertion that stored its strings,
an insertion that was skipped, a flush. -/
inductive Event where
  | lookup (r : Request) (result : Option LookupResult)
  | stored (r : Request) (tree : List UInt8) (datums : Option (List UInt8))
  | skipped (r : Request)
  | flushed

/-- One step of some session. -/
inductive Step (hs : Hashes) (cfg : Settings) : Table → Event → Table → Prop
  | get (t : Table) (r : Request) (now : Int) :
      Step hs cfg t (.lookup r (get hs r now t).1) (get hs r now t).2
  | stored {t : Table} {choice : PutChoice} {r : Request} {tree : List UInt8}
      {datums : Option (List UInt8)} (hvalid : choice.Valid cfg t)
      (hput : (put hs cfg choice r tree datums t).1 = true) :
      Step hs cfg t (.stored r tree datums) (put hs cfg choice r tree datums t).2
  | skipped {t : Table} {choice : PutChoice} {r : Request} {tree : List UInt8}
      {datums : Option (List UInt8)} (hvalid : choice.Valid cfg t)
      (hput : (put hs cfg choice r tree datums t).1 = false) :
      Step hs cfg t (.skipped r) (put hs cfg choice r tree datums t).2
  | flush (t : Table) : Step hs cfg t .flushed (flush t)

/-- A run from the empty cache, with what has happened in it, first to last. -/
inductive Run (hs : Hashes) (cfg : Settings) : List Event → Table → Prop
  | start : Run hs cfg [] []
  | step {events : List Event} {t t' : Table} {ev : Event} (h : Run hs cfg events t)
      (hstep : Step hs cfg t ev t') : Run hs cfg (events ++ [ev]) t'

/-! ### What one insertion does -/

/-- The strings of an insertion are in the entry. -/
def HoldsOf (hs : Hashes) (e : CacheEntry) (r : Request) (tree : List UInt8)
    (datums : Option (List UInt8)) : Prop :=
  Holds e r.queryText tree (datums.getD []) (r.paramSig hs) r.preCacheNDatums r.version

variable {cfg : Settings}
variable {choice : PutChoice}

theorem entrySizeOk_le {a b c : Nat} (h : entrySizeOk cfg choice a b c = true) :
    a + b + c + 3 ≤ cfg.dataCapacity := by
  simp only [entrySizeOk, Bool.and_eq_true, decide_eq_true_iff] at h
  exact h.1.1

variable {hs : Hashes}
variable {ev : Event} {t : Table} {k : UInt64} {r : Request} {events : List Event}
variable {now : Int} {t' : Table} {e : CacheEntry} {tree : List UInt8}
  {datums : Option (List UInt8)}

/-- **What an insertion does to the table**: it stores its own strings under its key, or it stores
nothing; the other entries stay or are evicted. -/
theorem put_cases (hslots : ∀ k e, t.lookup k = some e → e.data.length = cfg.dataCapacity)
    (hvalid : choice.Valid cfg t) (h : (put hs cfg choice r tree datums t).2.lookup k = some e) :
    ((put hs cfg choice r tree datums t).1 = true ∧ k = r.key hs ∧ HoldsOf hs e r tree datums ∧
        e.data.length = cfg.dataCapacity) ∨
      (((put hs cfg choice r tree datums t).1 = true → k ≠ r.key hs) ∧ t.lookup k = some e) := by
  revert h
  unfold put
  simp only
  by_cases hsize : entrySizeOk cfg choice r.queryText.length tree.length
      (datums.getD []).length = true
  swap
  · rw [if_neg hsize]
    exact fun h => .inr ⟨fun hf => absurd hf Bool.false_ne_true, h⟩
  rw [if_pos hsize]
  have hroom := entrySizeOk_le hsize
  -- the table after a store of this insertion's strings into some entry
  have hstore : ∀ (t' : Table) (e₀ : CacheEntry) (found : Bool),
      e₀.data.length = cfg.dataCapacity → (t'.lookup k = some e → t.lookup k = some e) →
      (hashStore t' (r.key hs) (e₀.fill found r.queryText tree (datums.getD []) r.version
        (r.paramSig hs) r.preCacheNDatums choice.now)).lookup k = some e →
      (k = r.key hs ∧ HoldsOf hs e r tree datums ∧ e.data.length = cfg.dataCapacity) ∨
        (k ≠ r.key hs ∧ t.lookup k = some e) := by
    intro t' e₀ found hlen hold h
    rw [lookup_hashStore] at h
    split_ifs at h with hk
    · cases h
      exact .inl ⟨hk, Holds.fill, by rw [length_fill (by omega), hlen]⟩
    · exact .inr ⟨hk, hold h⟩
  cases hfind : t.lookup (r.key hs) with
  | some e₀ =>
    simp only
    split
    · intro h
      exact (hstore t e₀ true (hslots _ _ hfind) id h).imp (fun h => ⟨rfl, h⟩)
        (fun h => ⟨fun _ => h.1, h.2⟩)
    · exact fun h => .inr ⟨fun hf => absurd hf Bool.false_ne_true, h⟩
  | none =>
    simp only
    have hold : (if cfg.numSlots ≤ t.length then hashEvictLru choice.entriesArr t else t).lookup k =
        some e → t.lookup k = some e := by
      split_ifs
      · exact lookup_evictLru
      · exact id
    split
    · exact fun h => .inr ⟨fun hf => absurd hf Bool.false_ne_true, hold h⟩
    · intro h
      exact (hstore _ choice.stale false hvalid.slot hold h).imp (fun h => ⟨rfl, h⟩)
        (fun h => ⟨fun _ => h.1, h.2⟩)

theorem get_cases (h : (get hs r now t).2.lookup k = some e) :
    t.lookup k = some e ∨ ∃ e₀, t.lookup k = some e₀ ∧ e = e₀.touch now := by
  unfold get at h
  cases hfind : t.lookup (r.key hs) with
  | none =>
    rw [hfind] at h
    exact .inl h
  | some e₀ =>
    rw [hfind] at h
    simp only at h
    split_ifs at h
    · simp only [lookup_hashStore] at h
      split_ifs at h with hk
      · cases h
        exact .inr ⟨e₀, hk ▸ hfind, rfl⟩
      · exact .inl h
    · exact .inl h

theorem get_hit {result : LookupResult} (h : (get hs r now t).1 = some result) :
    ∃ e, t.lookup (r.key hs) = some e ∧ usable hs r e = true ∧ result = e.copy := by
  unfold get at h
  cases hfind : t.lookup (r.key hs) with
  | none =>
    rw [hfind] at h
    cases h
  | some e =>
    rw [hfind] at h
    simp only at h
    split_ifs at h with hu
    cases h
    exact ⟨e, rfl, hu, rfl⟩

/-! ### The invariant -/

/-- The event stores nothing under the key. -/
def Event.NotUnder (hs : Hashes) (k : UInt64) : Event → Prop
  | .stored r _ _ => r.key hs ≠ k
  | _ => True

/-- The last insertion under the key `k`. -/
def LastStored (hs : Hashes) (events : List Event) (k : UInt64) (r : Request)
    (tree : List UInt8) (datums : Option (List UInt8)) : Prop :=
  ∃ before after, events = before ++ .stored r tree datums :: after ∧ r.key hs = k ∧
    ∀ ev ∈ after, ev.NotUnder hs k

theorem LastStored.snoc (h : LastStored hs events k r tree datums) (hev : ev.NotUnder hs k) :
    LastStored hs (events ++ [ev]) k r tree datums := by
  obtain ⟨before, after, rfl, hk, hafter⟩ := h
  exact ⟨before, after ++ [ev], by simp, hk,
    forall_mem_append.mpr ⟨hafter, forall_mem_singleton.mpr hev⟩⟩

/-- **The invariant of the cache**: every entry fills its slot, and has the strings of the last
insertion under its key. -/
structure Inv (hs : Hashes) (cfg : Settings) (events : List Event) (t : Table) : Prop where
  slots : ∀ k e, t.lookup k = some e → e.data.length = cfg.dataCapacity
  last : ∀ k e, t.lookup k = some e → ∃ r tree datums,
    LastStored hs events k r tree datums ∧ HoldsOf hs e r tree datums

theorem Inv.put (h : Inv hs cfg events t) (hvalid : choice.Valid cfg t)
    (hev : ev = if (put hs cfg choice r tree datums t).1 then .stored r tree datums
      else .skipped r) : Inv hs cfg (events ++ [ev]) (put hs cfg choice r tree datums t).2 := by
  constructor
  · intro k e he
    rcases put_cases h.slots hvalid he with ⟨-, -, -, hlen⟩ | ⟨-, he⟩
    · exact hlen
    · exact h.slots k e he
  · intro k e he
    rcases put_cases h.slots hvalid he with ⟨htrue, hk, hholds, -⟩ | ⟨hne, he⟩
    · rw [hev, if_pos htrue]
      exact ⟨r, tree, datums, ⟨events, [], rfl, hk.symm, by simp⟩, hholds⟩
    · obtain ⟨r', tree', datums', hlast, hholds⟩ := h.last k e he
      refine ⟨r', tree', datums', hlast.snoc ?_, hholds⟩
      rw [hev]
      split
      · rename_i htrue
        exact (hne htrue).symm
      · trivial

theorem Inv.step (h : Inv hs cfg events t) (hstep : Step hs cfg t ev t') :
    Inv hs cfg (events ++ [ev]) t' := by
  cases hstep with
  | get r now =>
    constructor
    · intro k e he
      rcases get_cases he with he | ⟨e₀, he₀, rfl⟩
      · exact h.slots k e he
      · exact h.slots k e₀ he₀
    · intro k e he
      rcases get_cases he with he | ⟨e₀, he₀, rfl⟩
      · obtain ⟨r', tree, datums, hlast, hholds⟩ := h.last k e he
        exact ⟨r', tree, datums, hlast.snoc trivial, hholds⟩
      · obtain ⟨r', tree, datums, hlast, hholds⟩ := h.last k e₀ he₀
        exact ⟨r', tree, datums, hlast.snoc trivial, hholds.touch now⟩
  | stored hvalid hput => exact h.put hvalid (by rw [if_pos hput])
  | skipped hvalid hput => exact h.put hvalid (by rw [hput]; rfl)
  | flush =>
    constructor
    · intro k e he
      exact h.slots k e (lookup_foldl_hashRemove he)
    · intro k e he
      obtain ⟨r', tree', datums', hlast, hholds⟩ := h.last k e (lookup_foldl_hashRemove he)
      exact ⟨r', tree', datums', hlast.snoc trivial, hholds⟩

/-- **The invariant holds after every run.** -/
theorem run_inv (h : Run hs cfg events t) : Inv hs cfg events t := by
  induction h with
  | start => exact ⟨by simp, by simp⟩
  | step _ hstep ih => exact ih.step hstep

theorem run_split {before after : List Event} (h : Run hs cfg events t)
    (heq : events = before ++ ev :: after) :
    ∃ t₁ t₂, Run hs cfg before t₁ ∧ Step hs cfg t₁ ev t₂ := by
  induction h generalizing after with
  | start => simp at heq
  | @step events t t' ev' hrun hstep ih =>
    rcases eq_nil_or_concat after with rfl | ⟨after', last, rfl⟩
    · obtain ⟨rfl, hev⟩ := append_inj' heq rfl
      cases hev
      exact ⟨t, t', hrun, hstep⟩
    · have hsplit : events ++ [ev'] = (before ++ ev :: after') ++ [last] := by
        rw [heq]
        simp
      exact ih (append_inj' hsplit rfl).1

/-! ### What a lookup returns -/

def Event.request : Event → Option Request
  | .lookup r _ => some r
  | .stored r _ _ => some r
  | .skipped r => some r
  | .flushed => none

/-- **The condition on a run**: among its requests, those with the same text, the same signature
and the same key are for the same database and have the same parameters. -/
def NoCollision (hs : Hashes) (events : List Event) : Prop :=
  ∀ ev ∈ events, ∀ ev' ∈ events, ∀ r r', ev.request = some r → ev'.request = some r' →
    r.queryText = r'.queryText → r.paramSig hs = r'.paramSig hs → r.key hs = r'.key hs →
    r.dbId = r'.dbId ∧ r.params = r'.params

/-- Two requests for the same text, database, signature, number of datums and version. -/
def Request.SameSource (hs : Hashes) (r r' : Request) : Prop :=
  r.queryText = r'.queryText ∧ r.dbId = r'.dbId ∧ r.paramSig hs = r'.paramSig hs ∧
    r.preCacheNDatums = r'.preCacheNDatums ∧ r.version = r'.version

/-- The result has the strings of the latest insertion for the same source, and that insertion had
the same parameters. -/
def FromLatest (hs : Hashes) (before : List Event) (r : Request) (result : LookupResult) : Prop :=
  ∃ old between r' tree datums, before = old ++ .stored r' tree datums :: between ∧
    r'.SameSource hs r ∧ r'.params = r.params ∧
    (∀ r'' tree' datums', .stored r'' tree' datums' ∈ between → ¬ r''.SameSource hs r) ∧
    result.parseTree = tree ∧ result.parseDatums.getD [] = datums.getD []

theorem key_eq_of_sameSource {r' : Request} (h : r.SameSource hs r') : r.key hs = r'.key hs := by
  obtain ⟨htext, hdb, hsig, -, -⟩ := h
  rw [Request.key, Request.key, htext, hdb, hsig]

theorem strlcpy_version : strlcpy r.version 32 = r.version :=
  take_of_length_le (Nat.le_of_lt_succ r.version_len)

theorem lookup_step {result : Option LookupResult} (h : Step hs cfg t (.lookup r result) t') :
    ∃ now, (get hs r now t).1 = result := by
  generalize hev : Event.lookup r result = ev at h
  cases h with
  | get r' now =>
    cases hev
    exact ⟨now, rfl⟩
  | stored | skipped | flush => cases hev

/-- **What a lookup returns.**  In every run whose requests do not collide, whichever sessions take
the steps and whatever the hash functions are, a lookup that finds an entry returns the strings of
the latest insertion for the same text, database, signature, number of datums and version, which was
made with the same parameters. -/
theorem lookup_latest {hs : Hashes} {cfg : Settings} {events : List Event} {t : Table}
    (hrun : Run hs cfg events t) (hno : NoCollision hs events) {before after : List Event}
    {r : Request} {result : LookupResult}
    (heq : events = before ++ .lookup r (some result) :: after) :
    FromLatest hs before r result := by
  obtain ⟨t₁, t₂, hbefore, hstep⟩ := run_split hrun heq
  obtain ⟨now, hget⟩ := lookup_step hstep
  obtain ⟨e, hfind, husable, rfl⟩ := get_hit hget
  obtain ⟨r', tree, datums, ⟨old, between, rfl, hkey, hlast⟩, hholds⟩ :=
    (run_inv hbefore).last _ e hfind
  obtain ⟨htext, hsig, hnd, hver, -⟩ := (hit_iff hholds).mp husable
  rw [strlcpy_version] at hver
  -- the database and the parameters are not compared: they are the same because nothing collides
  have hsame : r'.dbId = r.dbId ∧ r'.params = r.params := by
    refine hno (.stored r' tree datums) ?_ (.lookup r (some e.copy)) ?_ r' r rfl rfl htext hsig hkey
    all_goals
      rw [heq]
      simp
  refine ⟨old, between, r', tree, datums, rfl, ⟨htext, hsame.1, hsig, hnd, hver⟩, hsame.2, ?_,
    hholds.copy⟩
  intro r'' tree' datums' hmem hsource
  exact hlast _ hmem (key_eq_of_sameSource hsource)

/-! ### A collision -/

/-- Hash functions that give every text and every parameter list the same key and signature. -/
def weakHashes : Hashes := ⟨fun _ => 0, fun _ _ => 0⟩

/-- The batch `SELECT 1` of a session in a database. -/
def selectOne (dbId : Int16) : Request where
  queryText := [83, 69, 76, 69, 67, 84, 32, 49]
  dbId := dbId
  params := []
  preCacheNDatums := 0
  version := [54, 46, 52, 46, 48]
  text_nul := by decide
  version_len := by decide

def firstPut : PutChoice where
  minEntrySize := 0
  maxEntrySize := 0
  entriesArr := []
  tableFull := false
  stale := ⟨0, 0, 0, [], 0, 0, 0, 0, List.replicate 32 0⟩
  now := 1

/-- A cache of two slots with room for 32 bytes. -/
def twoSlots : Settings := ⟨2, 32⟩

theorem firstPut_valid (numSlots : Nat) : firstPut.Valid ⟨numSlots, 32⟩ [] :=
  ⟨⟨[], .refl _, by simp [firstPut]⟩, .nil, rfl⟩

/-- The events of a batch cached in database 5 and looked up in another one. -/
def cachedIn5 (dbId : Int16) : List Event :=
  [.stored (selectOne 5) [123, 125] none, .lookup (selectOne dbId) (some ⟨[123, 125], none⟩)]

def tableOf5 : Table :=
  (put weakHashes twoSlots firstPut (selectOne 5) [123, 125] none []).2

theorem run_cachedIn5 (dbId : Int16) : ∃ t, Run weakHashes twoSlots (cachedIn5 dbId) t := by
  have hput : Step weakHashes twoSlots [] (.stored (selectOne 5) [123, 125] none) tableOf5 :=
    .stored (firstPut_valid 2) (by decide +kernel)
  have hresult : (get weakHashes (selectOne dbId) 2 tableOf5).1 = some ⟨[123, 125], none⟩ := by
    rfl
  have hget : Step weakHashes twoSlots tableOf5
      (.lookup (selectOne dbId) (some ⟨[123, 125], none⟩))
      (get weakHashes (selectOne dbId) 2 tableOf5).2 := hresult ▸ .get tableOf5 (selectOne dbId) 2
  exact ⟨_, (Run.start.step hput).step hget⟩

/-- A lookup in the database that cached the batch. -/
theorem lookup_latest_own : FromLatest weakHashes [.stored (selectOne 5) [123, 125] none]
    (selectOne 5) ⟨[123, 125], none⟩ := by
  obtain ⟨t, hrun⟩ := run_cachedIn5 5
  have hsplit : cachedIn5 5 = [.stored (selectOne 5) [123, 125] none] ++
      .lookup (selectOne 5) (some ⟨[123, 125], none⟩) :: [] := rfl
  refine lookup_latest hrun ?_ hsplit
  intro ev hev ev' hev' r r' hr hr' _ _ _
  have hall : ∀ ev ∈ cachedIn5 5, ev.request = some (selectOne 5) :=
    forall_mem_cons.mpr ⟨rfl, forall_mem_singleton.mpr rfl⟩
  rw [hall ev hev] at hr
  rw [hall ev' hev'] at hr'
  cases hr
  cases hr'
  exact ⟨rfl, rfl⟩

/-- The tree cached for a batch of database 5 is given to the same batch of database 6. -/
theorem other_database :
    (∃ t, Run weakHashes twoSlots (cachedIn5 6) t) ∧
      ¬ FromLatest weakHashes [.stored (selectOne 5) [123, 125] none] (selectOne 6)
        ⟨[123, 125], none⟩ := by
  refine ⟨run_cachedIn5 6, ?_⟩
  rintro ⟨old, between, r', tree, datums, heq, hsource, -⟩
  rcases old with - | ⟨ev, old⟩
  · cases heq
    exact absurd hsource.2.1 (by decide)
  · simp at heq

/-! ### The bounds of the cache -/

/-- `antlr_batch_parse_cache_num_slots` -/
def numSlots (sizeMb slotSizeKb : Nat) : Nat :=
  sizeMb * 1024 * 1024 / ((slotSizeKb * 1024 + 7) / 8 * 8)

/-- The three parts of an entry stand one behind the other in its slot, each with its terminator. -/
structure LaidOut (capacity : Nat) (e : CacheEntry) : Prop where
  slot : e.data.length = capacity
  text : e.textOffset + e.queryTextLen < e.treeOffset
  tree : e.treeOffset + e.parseTreeLen < e.datumsOffset
  datums : e.datumsOffset + e.parseDatumsLen < capacity
  text_nul : e.data[e.textOffset + e.queryTextLen]? = some 0
  tree_nul : e.data[e.treeOffset + e.parseTreeLen]? = some 0
  datums_nul : e.data[e.datumsOffset + e.parseDatumsLen]? = some 0

/-- What an eviction does: it removes a tenth of the entries but at least five, or all, and those
that were used last before all that stay. -/
def EvictsOldest (t t' : Table) : Prop :=
  ∃ gone, t.Perm (gone ++ t') ∧ gone.length = min (max 5 (t.length * 10 / 100)) t.length ∧
    ∀ p ∈ gone, ∀ q ∈ t', p.2.lastUsedAt ≤ q.2.lastUsedAt

structure Bounds (cfg : Settings) (t : Table) : Prop where
  count : t.length ≤ cfg.numSlots
  keys : (t.map Prod.fst).Nodup
  layout : ∀ k e, (k, e) ∈ t → LaidOut cfg.dataCapacity e
  evictions : ∀ choice : PutChoice, choice.Valid cfg t →
    EvictsOldest t (hashEvictLru choice.entriesArr t)

theorem HoldsOf.laidOut (h : HoldsOf hs e r tree datums) (hslot : e.data.length = cfg.dataCapacity)
    : LaidOut cfg.dataCapacity e := by
  obtain ⟨rest, hdata⟩ := h.data
  have hlen := congrArg List.length hdata
  simp only [length_append, length_cons, length_nil] at hlen
  refine ⟨hslot, Nat.lt_succ_self _, Nat.lt_succ_self _, ?_, ?_, ?_, ?_⟩ <;>
    simp only [datumsOffset, treeOffset, textOffset, h.textLen, h.treeLen, h.datumsLen]
  · omega
  all_goals rw [hdata]; grind

theorem foldl_hashRemove {ks : List UInt64} :
    ks.foldl hashRemove t = t.filter fun p => p.1 ∉ ks := by
  induction ks generalizing t with
  | nil => simp
  | cons k ks ih =>
    rw [foldl_cons, ih, hashRemove, filter_filter]
    exact filter_congr fun p _ => by grind

theorem lookup_eq_of_mem (hkeys : (t.map Prod.fst).Nodup) (h : (k, e) ∈ t) :
    t.lookup k = some e := by
  obtain ⟨pre, post, rfl⟩ := append_of_mem h
  rw [map_append, map_cons, nodup_append] at hkeys
  exact lookup_eq_some_iff.mpr ⟨pre, post, rfl, fun p hp =>
    bne_iff_ne.mpr (hkeys.2.2 p.1 (mem_map_of_mem hp) k mem_cons_self).symm⟩

/-- **What an eviction leaves**: the entries behind those that it drops. -/
theorem hashEvictLru_perm {arr : Table} (hkeys : (t.map Prod.fst).Nodup) (h : arr.Perm t) :
    (hashEvictLru arr t).Perm (arr.drop (numToDrop arr.length)) := by
  rw [hashEvictLru, foldl_hashRemove]
  generalize numToDrop arr.length = n
  refine (h.symm.filter _).trans (.of_eq ?_)
  have hkeys' : ((arr.take n ++ arr.drop n).map Prod.fst).Nodup := by
    rw [take_append_drop]
    exact (h.map _).nodup_iff.mpr hkeys
  rw [map_append, nodup_append] at hkeys'
  have hsplit : arr = arr.take n ++ arr.drop n := (take_append_drop n arr).symm
  generalize arr.take n = gone, arr.drop n = stay at hsplit hkeys' ⊢
  rw [hsplit, filter_append, filter_eq_nil_iff.mpr, filter_eq_self.mpr, nil_append]
  · intro p hp
    rw [decide_eq_true_iff]
    exact fun hk => hkeys'.2.2 _ hk _ (mem_map_of_mem hp) rfl
  · intro p hp
    simpa using ⟨p.2, hp⟩

theorem PutChoice.Valid.perm (h : choice.Valid cfg t) (hcount : t.length ≤ cfg.numSlots) :
    choice.entriesArr.Perm t := by
  obtain ⟨scan, hscan, harr⟩ := h.scanned
  rw [take_of_length_le (hscan.length_eq ▸ hcount)] at harr
  exact harr.trans hscan

theorem hashEvictLru_oldest (hcount : t.length ≤ cfg.numSlots) (hkeys : (t.map Prod.fst).Nodup)
    (h : choice.Valid cfg t) : EvictsOldest t (hashEvictLru choice.entriesArr t) := by
  have hperm := h.perm hcount
  have hleft := hashEvictLru_perm hkeys hperm
  have hsorted := h.sorted
  refine ⟨choice.entriesArr.take (numToDrop choice.entriesArr.length), ?_, ?_, ?_⟩
  · refine hperm.symm.trans ?_
    nth_rw 1 [← take_append_drop (numToDrop choice.entriesArr.length) choice.entriesArr]
    exact hleft.symm.append_left _
  · rw [length_take, hperm.length_eq, numToDrop]
    omega
  · rw [← take_append_drop (numToDrop choice.entriesArr.length) choice.entriesArr,
      pairwise_append] at hsorted
    exact fun p hp q hq => hsorted.2.2 p hp q (hleft.subset hq)

/-- No more entries than slots, under different keys. -/
def Fits (cfg : Settings) (t : Table) : Prop :=
  t.length ≤ cfg.numSlots ∧ (t.map Prod.fst).Nodup

section

variable (h : Fits cfg t)
include h

theorem Fits.sublist (hsub : t'.Sublist t) : Fits cfg t' :=
  ⟨le_trans hsub.length_le h.1, h.2.sublist (hsub.map _)⟩

theorem Fits.hashStore (hroom : (t.lookup k).isSome ∨ t.length < cfg.numSlots) :
    Fits cfg (hashStore t k e) := by
  have hsub : (hashRemove t k).Sublist t := filter_sublist
  constructor
  · rcases hroom with hsome | hlt
    · obtain ⟨e₀, he₀⟩ := Option.isSome_iff_exists.mp hsome
      obtain ⟨l₁, l₂, rfl, -⟩ := lookup_eq_some_iff.mp he₀
      have hlt : (hashRemove (l₁ ++ (k, e₀) :: l₂) k).length < (l₁ ++ (k, e₀) :: l₂).length :=
        length_filter_lt_length_iff_exists.mpr ⟨(k, e₀), by simp, by simp⟩
      exact lt_of_lt_of_le hlt h.1
    · exact lt_of_le_of_lt hsub.length_le hlt
  · refine nodup_cons.mpr ⟨?_, (h.sublist hsub).2⟩
    simp [hashRemove]

theorem Fits.get : Fits cfg (get hs r now t).2 := by
  rw [ParseCache.get]
  cases hfind : t.lookup (r.key hs) with
  | none => exact h
  | some e =>
    dsimp only
    split
    · exact h.hashStore (.inl (hfind ▸ rfl))
    · exact h

theorem Fits.evicted (hpos : 0 < cfg.numSlots) (hvalid : choice.Valid cfg t)
    (hfull : cfg.numSlots ≤ t.length) :
    (hashEvictLru choice.entriesArr t).length < cfg.numSlots := by
  have hcount := h.1
  have hperm := hvalid.perm hcount
  rw [(hashEvictLru_perm h.2 hperm).length_eq, length_drop, hperm.length_eq, numToDrop]
  omega

theorem Fits.put (hpos : 0 < cfg.numSlots) (hvalid : choice.Valid cfg t) :
    Fits cfg (put hs cfg choice r tree datums t).2 := by
  have hevict : Fits cfg (hashEvictLru choice.entriesArr t) := by
    rw [hashEvictLru, foldl_hashRemove]
    exact h.sublist filter_sublist
  unfold ParseCache.put
  dsimp only
  split
  swap
  · exact h
  cases hfind : t.lookup (r.key hs) with
  | some e =>
    dsimp only
    split
    · exact h.hashStore (.inl (hfind ▸ rfl))
    · exact h
  | none =>
    dsimp only
    by_cases hfull : cfg.numSlots ≤ t.length
    · rw [if_pos hfull]
      split
      · exact hevict
      · exact hevict.hashStore (.inr (h.evicted hpos hvalid hfull))
    · rw [if_neg hfull]
      split
      · exact h
      · exact h.hashStore (.inr (Nat.lt_of_not_le hfull))

end

theorem run_fits (hpos : 0 < cfg.numSlots) (h : Run hs cfg events t) : Fits cfg t := by
  induction h with
  | start => exact ⟨Nat.zero_le _, .nil⟩
  | step _ hstep ih =>
    cases hstep with
    | get => exact ih.get
    | stored hvalid | skipped hvalid => exact ih.put hpos hvalid
    | flush =>
      rw [flush, foldl_hashRemove]
      exact ih.sublist filter_sublist

def addingHashes : Hashes := ⟨fun _ => 0, (· + ·)⟩

/-- The batch of database 5 is cached and looked up. -/
def usedTable : Table :=
  (get addingHashes (selectOne 5) 2
    (put addingHashes ⟨10, 32⟩ firstPut (selectOne 5) [123, 125] none []).2).2

def secondPut : PutChoice := { firstPut with entriesArr := usedTable, now := 3 }

def twoEntries : Table :=
  (put addingHashes ⟨10, 32⟩ secondPut (selectOne 6) [91, 93] none usedTable).2

/-- The strings of an insertion are there. -/
def Has (hs : Hashes) (r : Request) (tree : List UInt8) (datums : Option (List UInt8)) (t : Table) :
    Prop :=
  ∃ e, t.lookup (r.key hs) = some e ∧ HoldsOf hs e r tree datums

theorem Has.get (h : Has hs r tree datums t) (r' : Request) (now : Int) :
    Has hs r tree datums (get hs r' now t).2 := by
  unfold ParseCache.get
  split
  · exact h
  · next e' hfind' =>
    split_ifs
    · obtain ⟨e, hfind, hholds⟩ := h
      rw [Has, lookup_hashStore]
      split_ifs with hk
      · rw [hk, hfind'] at hfind
        exact ⟨_, rfl, Option.some.inj hfind ▸ hholds.touch now⟩
      · exact ⟨e, hfind, hholds⟩
    · exact h

theorem has_put (h : (put hs cfg choice r tree datums t).1 = true) :
    Has hs r tree datums (put hs cfg choice r tree datums t).2 := by
  revert h
  unfold ParseCache.put
  dsimp only
  split
  · split <;> split
    · exact fun _ => ⟨_, (lookup_hashStore t _).trans (if_pos rfl), Holds.fill⟩
    · exact nofun
    · exact nofun
    · exact fun _ => ⟨_, (lookup_hashStore _ _).trans (if_pos rfl), Holds.fill⟩
  · exact nofun

/-- **A stored batch is found**, with its strings, by every session that asks for the same source,
whatever is looked up in between. -/
theorem get_stored (hput : (put hs cfg choice r tree datums t).1 = true) (htree : tree ≠ [])
    {r' : Request} (hsame : r.SameSource hs r') (lookups : List (Request × Int)) (now : Int) :
    ∃ result, (get hs r' now (lookups.foldl (fun t l => (get hs l.1 l.2 t).2)
        (put hs cfg choice r tree datums t).2)).1 = some result ∧
      result.parseTree = tree ∧ result.parseDatums.getD [] = datums.getD [] := by
  have hhas := has_put hput
  generalize (put hs cfg choice r tree datums t).2 = t₀ at hhas ⊢
  induction lookups generalizing t₀ with
  | cons l lookups ih => exact ih _ (hhas.get l.1 l.2)
  | nil =>
    obtain ⟨e, hfind, hholds⟩ := hhas
    have husable : usable hs r' e = true := by
      rw [hit_iff hholds, strlcpy_version]
      exact ⟨hsame.1, hsame.2.2.1, hsame.2.2.2.1, hsame.2.2.2.2, htree⟩
    refine ⟨e.copy, ?_, hholds.copy⟩
    rw [key_eq_of_sameSource hsame] at hfind
    simp [ParseCache.get, hfind, husable]

theorem get_stored_selectOne : ∃ result,
    (get weakHashes (selectOne 5) 2 tableOf5).1 = some result ∧
      result.parseTree = [123, 125] ∧ result.parseDatums.getD [] = [] :=
  get_stored rfl (by decide) ⟨rfl, rfl, rfl, rfl, rfl⟩ [] 2

end Babelfish.Tsql.ParseCache
