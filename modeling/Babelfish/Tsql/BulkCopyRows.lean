import Babelfish.Tsql.BulkCopy

/-!
# The rows of a bulk load

* `LoadedRow`: what a row of the table should hold, for the values that were received.
* `LoadedRows`: the rows of the table are the received ones, each once and in their order.
* `Progress`, `executeBulkCopy_spec`: what holds between two rows and between two batches.
* `bulkCopy_loads`: a load that raises no error has loaded its rows.
-/

namespace Babelfish.Tsql.BulkCopy

open Lib List

variable {n : Nat} {σ : Type}

/-! ### What a load should do -/

section
variable (c : Load n σ)

/-- The received values are in their columns, `next` is in an identity column that is not listed,
and all other columns are NULL. -/
structure Placed (vs : List (Option Datum)) (next : Option Datum) (slot : Slot n) : Prop where
  listed : ∀ (k : Nat) (i : Fin n), c.attnumlist[k]? = some i → vs[k]? = some (slot i)
  identity : ∀ i, i ∉ c.attnumlist → (c.desc.att i).isIdentity → slot i = next
  null : ∀ i, i ∉ c.attnumlist → ¬(c.desc.att i).isIdentity → slot i = none

def TakesDefault (slot : Slot n) (i : Fin n) : Prop :=
  slot i = none ∧ (c.desc.att i).isDefaulted ∧
    (c.keepNulls = false ∨ (c.desc.att i).isRowversion)

/-- The columns are gone through one after the other; each default is evaluated on the database that
the one before has left. -/
inductive Defaulted (slot : Slot n) (db : σ) : List (Fin n) → Slot n → σ → Prop
  | nil : Defaulted slot db [] slot db
  | taken {is : List (Fin n)} {row : Slot n} {db' db'' : σ} {i : Fin n} {v : Option Datum}
      (h : Defaulted slot db is row db') (htakes : TakesDefault c slot i)
      (hv : c.evalDefault i db' = .ok (v, db'')) :
      Defaulted slot db (is ++ [i]) (Function.update row i v) db''
  | kept {is : List (Fin n)} {row : Slot n} {db' : σ} {i : Fin n}
      (h : Defaulted slot db is row db') (hkeeps : ¬TakesDefault c slot i) :
      Defaulted slot db (is ++ [i]) row db'

/-- **What a row of the table should hold**: values, defaults, and what the computed columns are. -/
def LoadedRow (vs : List (Option Datum)) (next : Option Datum) (db : σ) (row : Slot n) (db' : σ) :
    Prop :=
  ∃ slot before values, Placed c vs next slot ∧ Defaulted c slot db c.defmap before db' ∧
    c.compute before = .ok values ∧
    ∀ i, row i = if (c.desc.att i).isComputed then values i else before i

/-- The identity column, if it is not listed, takes the next value of the sequence. -/
structure Drawn (db : σ) (next : Option Datum) (db' : σ) : Prop where
  value : ∀ i, (c.desc.att i).isIdentity → i ∉ c.attnumlist →
    ∃ v, c.nextval db = .ok (v, db') ∧ next = some (BitVec.ofInt 64 v)
  same : (∀ i, (c.desc.att i).isIdentity → i ∈ c.attnumlist) → db' = db

/-- **The rows of the table are the received ones**, each once and in their order.  The database
goes through them from `db₀` on. -/
inductive LoadedRows (db₀ : σ) : List (List (Option Datum)) → List (Slot n) → σ → Prop
  | nil : LoadedRows db₀ [] [] db₀
  | concat {received : List (List (Option Datum))} {rows : List (Slot n)} {db db' db'' : σ}
      {vs : List (Option Datum)} {next : Option Datum} {row : Slot n}
      (h : LoadedRows db₀ received rows db) (hdrawn : Drawn c db next db')
      (hrow : LoadedRow c vs next db' row db'') :
      LoadedRows db₀ (received ++ [vs]) (rows ++ [row]) db''

/-- **What holds between two rows**, after the rows `received`: those that the table has not got are
in the buffer, which is not full. -/
structure Progress (db₀ : σ) (received : List (List (Option Datum))) (s : BulkCopyState n σ) :
    Prop where
  rows : LoadedRows c db₀ received (s.table ++ s.slots) s.db
  buffered : s.bufferedTuples = s.slots.length
  free : s.slots.length < maxBufferedTuples

end

/-! ### One row -/

section
variable {c : Load n σ} {vs values : List (Option Datum)} {row : Nat} {db₀ : σ}
  {received : List (List (Option Datum))} {s : BulkCopyState n σ}
  {rest : List (List (Option Datum))}

theorem PlacedRow.placed {db : σ} {p : Placing n σ}
    (h : PlacedRow c vs db (List.finRange n) p) (hnodup : c.attnumlist.Nodup) :
    p.j = c.attnumlist.length ∧
      ∃ next, Placed c vs next p.slot ∧ Drawn c db next p.db := by
  have hj : p.j = c.attnumlist.length := h.count.trans (length_filter_finRange hnodup)
  have hlisted : ∀ (k : Nat) (i : Fin n), c.attnumlist[k]? = some i → vs[k]? = some (p.slot i) :=
    fun k i hat => h.listed k i (hj ▸ (List.getElem?_eq_some_iff.mp hat).1) hat
  have hnull : ∀ i, i ∉ c.attnumlist → ¬(c.desc.att i).isIdentity → p.slot i = none :=
    fun i hun hid => h.null i (mem_finRange i) hun (mt seqIndex_eq_some.mp hid)
  refine ⟨hj, ?_⟩
  by_cases hall : ∀ i, (c.desc.att i).isIdentity → i ∈ c.attnumlist
  · refine ⟨none, ⟨hlisted, fun i hun hid => absurd (hall i hid) hun, hnull⟩,
      ⟨fun i hid hun => absurd (hall i hid) hun, fun _ => ?_⟩⟩
    exact h.kept fun i hi => hall i (seqIndex_eq_some.mp hi)
  · simp only [not_forall] at hall
    obtain ⟨i, hid, hun⟩ := hall
    have hdrawn := h.drawn i (seqIndex_eq_some.mpr hid) hun
    rw [if_pos (mem_finRange i)] at hdrawn
    obtain ⟨v, hv, hslot⟩ := hdrawn
    refine ⟨some (BitVec.ofInt 64 v), ⟨hlisted, fun k _ hk => ?_, hnull⟩,
      ⟨fun _ _ _ => ⟨v, hv, rfl⟩, fun hcon => absurd (hcon i hid) hun⟩⟩
    rw [c.desc.identity_unique k i hk hid, hslot]

theorem Defaulted.other {slot t : Slot n} {db db' : σ} {is : List (Fin n)} {i : Fin n}
    (h : Defaulted c slot db is t db') (hi : i ∉ is) : t i = slot i := by
  induction h with
  | nil => rfl
  | taken _ _ _ ih =>
    rw [mem_append, mem_singleton, not_or] at hi
    rw [Function.update_of_ne hi.2]
    exact ih hi.1
  | kept _ _ ih => exact ih fun hmem => hi (mem_append_left _ hmem)

theorem setDefaults_spec (slot : Slot n) (db : σ) :
    Ends Raised (c.defmap.foldlM (setDefault c) (slot, db)) fun r =>
      Defaulted c slot db c.defmap r.1 r.2 := by
  refine Ends.foldlM (I := fun pre (r : Slot n × σ) => Defaulted c slot db pre r.1 r.2) .nil ?_
  intro pre i post t hl h
  have hmap : c.defmap.Nodup := (nodup_finRange n).filter _
  have hdef : (c.desc.att i).isDefaulted :=
    (mem_filter.mp (hl ▸ mem_append_right _ mem_cons_self : i ∈ c.defmap)).2
  have hpre : i ∉ pre := by
    rw [hl] at hmap
    exact fun hmem => (nodup_append.mp hmap).2.2 i hmem i mem_cons_self rfl
  have htakes : TakesDefault c slot i ↔
      t.1 i = none ∧ (c.keepNulls = false ∨ c.rvIndex = some i) := by
    rw [TakesDefault, h.other hpre, rvIndex_eq_some]
    simp only [hdef, true_and]
  refine .ite (fun hcond => (ends_call _).bind fun r hr => ?_) fun hcond => ?_
  · exact .taken h (htakes.mpr hcond) hr
  · exact .kept h (mt htakes.mp hcond)

/-- **One row** goes into the buffer, and the buffer to the table when it is full. -/
theorem executeRow_spec (hnodup : c.attnumlist.Nodup) (hlen : vs.length = c.attnumlist.length)
    (hvs : ∀ k, k < vs.length → values[row * c.attnumlist.length + k]? = vs[k]?)
    (h : Progress c db₀ received s) :
    Ends Raised (executeRow c values row s) fun r =>
      Progress c db₀ (received ++ [vs]) r.1 ∧ r.2 = c.attnumlist.length := by
  refine (placeColumns_spec hnodup hlen hvs _).bind fun p hp => ?_
  obtain ⟨hj, next, hplaced, hdrawn⟩ := hp.placed hnodup
  refine (setDefaults_spec p.slot p.db).bind fun r hr => ?_
  have hstored : Ends Raised (computeStored c r.1) fun slot =>
      LoadedRow c vs next p.db slot r.2 :=
    (ends_call _).bind fun values hvalues =>
      ⟨p.slot, r.1, values, hplaced, hr, hvalues, fun _ => rfl⟩
  refine hstored.bind fun slot hslot => ?_
  have hrows : LoadedRows c db₀ (received ++ [vs]) (s.table ++ (s.slots ++ [slot])) r.2 := by
    rw [← append_assoc]
    exact .concat h.rows hdrawn hslot
  have hstore : Progress c db₀ (received ++ [vs])
      (store { s with curIdentityValue := p.cur, db := r.2 } slot) := by
    have hcount : s.bufferedTuples + 1 = (s.slots ++ [slot]).length := by
      rw [h.buffered, length_append, length_singleton]
    unfold store
    dsimp only
    split
    · exact ⟨by simpa [flush] using hrows, rfl, Nat.zero_lt_succ 999⟩
    · next hfull => exact ⟨hrows, hcount, hcount ▸ Nat.lt_of_not_le hfull⟩
  cases c.checkConstraints with
  | false => exact ⟨hstore, hj⟩
  | true => exact (ends_call _).bind fun _ _ => ⟨hstore, hj⟩

/-! ### Batches -/

theorem getElem?_flatten {len : Nat} {done : List (List (Option Datum))}
    (hdone : ∀ r ∈ done, r.length = len) {k : Nat} (hk : k < vs.length) :
    (done ++ vs :: rest).flatten[done.length * len + k]? = vs[k]? := by
  have hlength : done.flatten.length = done.length * len := by
    rw [length_flatten, map_congr_left hdone, map_const', sum_replicate_nat]
  rw [flatten_append, flatten_cons, ← hlength, getElem?_append_right (by omega),
    Nat.add_sub_cancel_left, getElem?_append_left hk]

section

variable (hnodup : c.attnumlist.Nodup) (hne : c.attnumlist ≠ [])
include hnodup hne

theorem executeLoop_spec {rows done : List (List (Option Datum))} {fuel : Nat}
    (hrows : rows = done ++ rest) (hlen : ∀ r ∈ rows, r.length = c.attnumlist.length)
    (hfuel : rest.length * c.attnumlist.length < fuel)
    (h : Progress c db₀ (received ++ done) s) :
    Ends Raised (executeLoop c rows.flatten rows.length fuel
        (done.length * c.attnumlist.length) done.length s)
      (Progress c db₀ (received ++ rows)) := by
  have hpos := length_pos_iff.mpr hne
  induction rest generalizing done fuel s with
  | nil =>
    obtain ⟨fuel, rfl⟩ := Nat.exists_eq_succ_of_ne_zero (Nat.ne_zero_of_lt hfuel)
    rw [append_nil] at hrows
    subst hrows
    rwa [executeLoop, if_neg (Nat.not_le.mpr h.free), if_neg (Nat.lt_irrefl _)]
  | cons vs rest ih =>
    obtain ⟨fuel, rfl⟩ := Nat.exists_eq_succ_of_ne_zero (Nat.ne_zero_of_lt hfuel)
    rw [length_cons, Nat.succ_mul] at hfuel
    have hmore : done.length * c.attnumlist.length < rows.length * c.attnumlist.length := by
      refine Nat.mul_lt_mul_of_pos_right ?_ hpos
      simp [hrows]
    have hdone : ∀ r ∈ done, r.length = c.attnumlist.length :=
      fun r hr => hlen r (hrows ▸ mem_append_left _ hr)
    have hvs : vs.length = c.attnumlist.length := hlen vs (by simp [hrows])
    rw [executeLoop, if_neg (Nat.not_le.mpr h.free), if_pos hmore]
    refine (executeRow_spec hnodup hvs (fun k hk => ?_) h).bind fun r hr => ?_
    · rw [hrows]
      exact getElem?_flatten hdone hk
    · obtain ⟨s', received'⟩ := r
      obtain ⟨hprogress, rfl⟩ := hr
      rw [append_assoc] at hprogress
      have hnext := ih (by simp [hrows]) (by omega : _ < fuel) hprogress
      rwa [length_append, length_singleton, Nat.succ_mul] at hnext

/-- **A batch.** -/
theorem executeBulkCopy_spec {rows : List (List (Option Datum))}
    (hlen : ∀ r ∈ rows, r.length = c.attnumlist.length) (h : Progress c db₀ received s) :
    Ends Raised (executeBulkCopy c s rows) (Progress c db₀ (received ++ rows)) := by
  have hstart : Progress c db₀ (received ++ []) s := by rwa [append_nil]
  have hloop := executeLoop_spec hnodup hne (nil_append rows).symm hlen
    (Nat.lt_succ_self _) hstart
  rwa [length_nil, Nat.zero_mul] at hloop

theorem executeBatches_spec {batches : List (List (List (Option Datum)))}
    (hlen : ∀ rows ∈ batches, ∀ r ∈ rows, r.length = c.attnumlist.length) (db : σ) :
    Ends Raised (batches.foldlM (executeBulkCopy c) { curIdentityValue := c.initialIdentity, db })
      (Progress c db batches.flatten) := by
  refine Ends.foldlM (I := fun pre => Progress c db pre.flatten)
    ⟨.nil, rfl, Nat.zero_lt_succ 999⟩ ?_
  intro pre rows post t hl ht
  have hrows := hlen rows (hl ▸ mem_append_right _ mem_cons_self)
  have hbatch := executeBulkCopy_spec hnodup hne hrows ht
  rwa [show pre.flatten ++ rows = (pre ++ [rows]).flatten by simp] at hbatch

end

end

/-- **A load hands the received rows to the table**, each once and in their order, unless it raises
an error; no access is outside of an array, and so the buffer never holds more than 1000 rows. -/
theorem bulkCopy_loads (c : Load n σ) (names : List String) (db : σ)
    (batches : List (List (List (Option Datum))))
    (hlist : bulkCopyGetAttnums c.desc names = .ok c.attnumlist) (hne : c.attnumlist ≠ [])
    (hlen : ∀ rows ∈ batches, ∀ r ∈ rows, r.length = c.attnumlist.length) :
    Ends Raised (bulkCopy c db batches) fun s =>
      ∃ db', LoadedRows c db batches.flatten s.table db' := by
  have hattnums := bulkCopyGetAttnums_spec c.desc names
  rw [hlist] at hattnums
  refine (executeBatches_spec hattnums.1 hne hlen db).bind fun s hs => ?_
  have hflush : ∀ db' : σ, LoadedRows c db batches.flatten
      (if s.bufferedTuples ≠ 0 then flush { s with db := db' } else { s with db := db' }).table
      s.db := by
    intro db'
    split
    · exact hs.rows
    · next hzero =>
      have hempty : s.slots = [] := by
        rw [hs.buffered, not_not] at hzero
        exact eq_nil_of_length_eq_zero hzero
      have hrows := hs.rows
      rwa [hempty, append_nil] at hrows
  unfold endBulkCopy
  split
  · exact (ends_call _).bind fun db' _ => ⟨s.db, hflush db'⟩
  · exact ⟨s.db, hflush s.db⟩

/-- A table with a column and a computed one, which is a copy of it. -/
def copyTable : TupleDesc 2 where
  relname := "t"
  att i :=
    if i = ⟨0, Nat.two_pos⟩ then { attname := "a" } else { attname := "b", attgenerated := true }
  identity_unique := by decide
  rowversion_unique := by decide

/-- A load into the first column.  The database is the last value of a sequence, default expressions
give NULL and nothing is checked. -/
def copyLoad : Load 2 Int where
  desc := copyTable
  attnumlist := [⟨0, Nat.two_pos⟩]
  keepNulls := false
  checkConstraints := false
  identityInsert := false
  incr := 1
  nextval db := .ok (db + 1, db + 1)
  setval v _ := .ok v
  lastValue := some
  start := 1
  evalDefault _ db := .ok (none, db)
  compute slot := .ok fun _ => slot ⟨0, Nat.two_pos⟩
  constraints _ := .ok ()

/-- Two batches, with three rows. -/
theorem bulkCopy_loads_copy :
    Ends Raised (bulkCopy copyLoad 0 [[[some 7], [none]], [[some 8]]]) fun s =>
      ∃ db', LoadedRows copyLoad 0 [[some 7], [none], [some 8]] s.table db' :=
  bulkCopy_loads copyLoad ["a"] 0 [[[some 7], [none]], [[some 8]]] (by decide) (by decide)
    (by decide)

/-- A computed column is not listed, has no default and is not NULL. -/
theorem computed_not_null :
    (bulkCopy copyLoad 0 [[[some 7]]]).toOption.map
        (fun s => s.table.map fun row => (row 0, row 1)) = some [(some 7, some 7)] ∧
      (1 : Fin 2) ∉ copyLoad.attnumlist ∧ (copyLoad.desc.att 1).isIdentity = false ∧
      (copyLoad.desc.att 1).atthasdef = false := by
  decide

end Babelfish.Tsql.BulkCopy
