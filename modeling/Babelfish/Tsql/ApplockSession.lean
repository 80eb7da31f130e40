import Babelfish.Tsql.ApplockInvariant

/-!
# What a session records of its application locks

The table of a session has one owner for each key.  As long as the session does not take a lock for
both kinds of owners, the table records just the locks that PostgreSQL has granted.

* `recorded_eq_held`: the law, for all states that careful steps reach.
* `mixed_owners_recorded`: a lock of both kinds.
-/

namespace Babelfish.Tsql

open Lib List Session AList

/-- The modes that the table of a session records under a key, with the owner. -/
def Session.recorded (s : Session) (key : Int) : List (LockMode × Bool) :=
  (s.cache.lookup key).elim [] fun entry => entry.modes.map (·, entry.isSession)

/-- The locks of PostgreSQL that a session holds under a key. -/
def Session.held (s : Session) (key : Int) : List (LockMode × Bool) :=
  (s.locks.filter fun l => l.key = key).map fun l => (l.mode, l.isSession)

/-- The steps of `sp_releaseapplock` for the resource and the owner of a lock. -/
def releaseEvents {ι : Type} (i : ι) (l : Lock) (owned : Bool) : List (ι × Event) :=
  [(i, .releaseapplock l.resource l.isSession), (i, .proceed ⟨"", 0⟩), (i, .lockRelease owned)]

theorem recorded_eq {s : Session} (hfits : CacheFits s) (hpc : s.pc.Plain) (key : Int) :
    s.recorded key = s.held key := by
  obtain ⟨habsent, hpresent⟩ := (cacheFits_iff hpc.not_ending).mp hfits
  unfold recorded held
  cases hentry : s.cache.lookup key with
  | none =>
    rw [filter_eq_nil_iff.mpr fun l hl => by simpa using habsent key hentry l hl]
    rfl
  | some entry =>
    have hrecords := hpresent key entry hentry
    rw [Option.elim, hrecords.modes_eq, map_map]
    refine map_congr_left fun l hl => ?_
    obtain ⟨hmem, hkey⟩ := mem_filter.mp hl
    exact Prod.ext rfl (hrecords.same l hmem (of_decide_eq_true hkey)).2.symm

theorem searchKeyFrom_eq {cache : HTab Int GlobalEnt} {resource : String} {entry : GlobalEnt}
    {key start : Int} {n : Nat} (hentry : cache key = some entry)
    (hresource : entry.resource = resource)
    (hunique : ∀ k e, cache k = some e → e.resource = resource → k = key)
    (hmem : key ∈ probe n start) : searchKeyFrom cache resource n start = some key := by
  induction n generalizing start with
  | zero => cases hmem
  | succ n ih =>
    rw [searchKeyFrom]
    rcases mem_cons.mp hmem with rfl | hmem
    · simp [hentry, hresource]
    · cases he : cache start with
      | none => exact ih hmem
      | some e =>
        dsimp only
        split_ifs with hr
        · rw [hunique start e he hr]
        · exact ih hmem

section

variable {ι : Type} [Fintype ι] [DecidableEq ι] {hash : String → Int}
  {c : Config ι (HTab Int GlobalEnt) Session} {i : ι}

theorem release_of_held (h : Ordered hash c) (hpc : (c.session i).pc = .idle) {l : Lock}
    (hl : l ∈ (c.session i).locks) (hsession : l.isSession = true) (owned : Bool) :
    ∃ c', Config.runAll (step hash) (start ι) (releaseEvents i l owned) c = some c' ∧
      (c'.session i).pc = .idle ∧
      (c'.session i).locks.length + 1 = (c.session i).locks.length := by
  have hplain : (c.session i).pc.Plain := by rw [hpc]; trivial
  obtain ⟨shared, hshared, hresource⟩ := (h.own i).refs (l.key, l.resource)
    (by rw [acquisitions_of_plain hplain]; exact mem_map_of_mem hl)
  have hsearch : appLockSearchKeyGlobal hash c.shared l.resource = some l.key := by
    have hcandidate := h.good.candidate l.key shared hshared
    rw [hresource] at hcandidate
    exact searchKeyFrom_eq hshared hresource
      (fun k e he hr => h.good.unique k l.key e shared he hshared (hr.trans hresource.symm))
      hcandidate
  obtain ⟨habsent, hpresent⟩ := (cacheFits_iff hplain.not_ending).mp (h.own i).fits
  cases hentry : (c.session i).cache.lookup l.key with
  | none => exact absurd rfl (habsent l.key hentry l hl)
  | some entry =>
    have hrecords := hpresent l.key entry hentry
    have howner := (hrecords.same l hl rfl).2
    cases hmodes : entry.modes with
    | nil => exact absurd hmodes hrecords.modes_ne
    | cons mode modes =>
      obtain ⟨l', hl', hmode⟩ := mem_map.mp
        (show mode ∈ _ by rw [← hrecords.modes_eq, hmodes]; exact mem_cons_self)
      obtain ⟨hmem, hkey⟩ := mem_filter.mp hl'
      have hkey := of_decide_eq_true hkey
      have hmatch : Lock.Matches l.key mode l.isSession l' = true :=
        decide_eq_true ⟨hkey, hmode, (hrecords.same l' hmem hkey).2.trans howner.symm⟩
      have hany : (c.session i).locks.any (Lock.Matches l.key mode l.isSession) = true :=
        any_eq_true.mpr ⟨l', hmem, hmatch⟩
      have hlength := length_eraseP_of_mem hmem hmatch
      have hpos := length_pos_of_mem hmem
      refine ⟨_, by
        simp only [releaseEvents, Config.runAll, step, hpc, Config.after, Function.update_self,
          hsearch, releaseKey, hentry, ne_eq, howner, not_true_eq_false, if_false, hmodes]
        rw [← howner, if_pos ⟨hany, by simp [hsession]⟩], ?_, ?_⟩
      · dsimp only
        rw [Function.update_self]
      · dsimp only
        rw [Function.update_self, hlength]
        omega

/-- **After careful calls the table of a session records what it holds**, under every key and with
the owner, and whatever it holds for itself can be released. -/
theorem recorded_eq_held (h : Run (step hash) Careful (start ι) c) (i : ι)
    (hpc : (c.session i).pc = .idle) :
    (∀ key, (c.session i).recorded key = (c.session i).held key) ∧
    ∀ l ∈ (c.session i).locks, l.isSession = true → ∀ owned,
      ∃ c', Config.runAll (step hash) (start ι) (releaseEvents i l owned) c = some c' ∧
        (c'.session i).pc = .idle ∧
        (c'.session i).locks.length + 1 = (c.session i).locks.length := by
  have hordered := ordered_of_run h
  refine ⟨fun key => recorded_eq (hordered.own i).fits (by rw [hpc]; trivial) key, ?_⟩
  exact fun l hl hsession owned => release_of_held hordered hpc hl hsession owned

end

theorem recorded_eq_held_two : ∃ c, Run (step fun _ => 7) Careful (start (Fin 2)) c ∧
    (c.session 0).locks = [⟨7, "A", .intentShared, true⟩, ⟨7, "A", .shared, true⟩] ∧
      (c.session 0).recorded 7 = [(.intentShared, true), (.shared, true)] := by
  obtain ⟨c, hrun, -, hpc, hlocks⟩ := careful_run
  refine ⟨c, hrun, hlocks, ?_⟩
  rw [(recorded_eq_held hrun 0 hpc).1 7, held, hlocks]
  rfl

/-- A lock that is taken for a transaction and then for the session is recorded twice behind the end
of the transaction, and held once. -/
theorem mixed_owners_recorded :
    (Config.runAll (step fun _ => 7) (start (Fin 1)) mixedOwnersEvents (start (Fin 1))).map
      (fun c => ((c.session 0).pc, (c.session 0).recorded 7, (c.session 0).held 7)) =
        some (.idle, [(.shared, true), (.shared, true)], [(.shared, true)]) := by
  decide +kernel

end Babelfish.Tsql
