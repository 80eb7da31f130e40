import Babelfish.Tsql.ApplockCache
import Mathlib.Algebra.BigOperators.Fin

/-!
# What the application locks keep

In `ApplockGetUsableKey` the key of a resource is looked up in one critical section and the entry
counted up in the next one.  In between another session can remove the entry, or replace it by that
of another resource.  When this does not happen, no session acquires one resource for two kinds of
owners, and no call or lock ends without the tables being told, then the tables are consistent in
all states that are reached.

* `OwnState`: what holds of every session.
* `step_keeps`: what one step does.
* `consistent_of_careful`: the tables are consistent in all states that careful steps reach.
* `unused_entry`: a run that leaves an entry that nobody uses.
-/

namespace Babelfish.Tsql

open Lib List Session AList

variable {k key : Int} {l : Lock} {request : Request} {order : List Int} {entry : LocalEnt}
  {locks : List Lock} {a : Int × String} {todo : List (Int × String)} {modes : List LockMode}
  {isSession : Bool} {mode : LockMode}

/-! ### The table of a session -/

/-- The entry records the locks that are granted under the key. -/
structure Records (key : Int) (locks : List Lock) (entry : LocalEnt) : Prop where
  modes_ne : entry.modes ≠ []
  modes_eq : entry.modes = (locks.filter fun l => l.key = key).map Lock.mode
  refcount_eq : entry.refcount = entry.modes.length
  same : ∀ l ∈ locks, l.key = key → l.resource = entry.resource ∧ l.isSession = entry.isSession

/-- The entry outlasts the end of the transaction. -/
def LocalEnt.Kept (releaseSession : Bool) (entry : LocalEnt) : Prop :=
  entry.isSession = true ∧ releaseSession = false

/-- The lock is not one of those that the end of the transaction releases. -/
def Session.Live (s : Session) (l : Lock) : Prop :=
  match s.pc with
  | .ending releaseSession _ => l.Kept releaseSession = true
  | _ => True

/-- The table of a session records its locks. -/
structure CacheFits (s : Session) : Prop where
  absent : ∀ k, s.cache.lookup k = none → ∀ l ∈ s.locks, l.key = k → ¬ s.Live l
  present : ∀ k entry, s.cache.lookup k = some entry → Records k s.locks entry
  ending : ∀ releaseSession todo, s.pc = .ending releaseSession todo →
    (∀ k entry, s.cache.lookup k = some entry →
      entry.Kept releaseSession ∨ k ∈ todo.map Prod.fst) ∧
    ∀ k ∈ todo.map Prod.fst, ∃ entry, s.cache.lookup k = some entry ∧ ¬ entry.Kept releaseSession

/-- Whatever a session holds has its entry in the shared table. -/
structure OwnState (cache : HTab Int GlobalEnt) (s : Session) : Prop where
  refs : ∀ a ∈ s.acquisitions, ∃ entry, cache a.1 = some entry ∧ entry.resource = a.2
  fits : CacheFits s

/-- What a step of a session starts from. -/
structure Sound (hash : String → Int) (cache : HTab Int GlobalEnt) (s : Session) : Prop where
  good : GoodCache hash cache
  own : OwnState cache s
  le : ∀ k, s.uses k ≤ refcount cache k

/-- What a step of a session does, if it goes well. -/
def Keeps (hash : String → Int) (cache : HTab Int GlobalEnt) (s : Session)
    (cache' : HTab Int GlobalEnt) (s' : Session) : Prop :=
  Change hash cache cache' s.uses s'.uses ∧ OwnState cache' s'

/-- The session is neither acquiring a lock nor ending a transaction. -/
def Pc.Plain : Pc → Prop
  | .acquire _ _ => False
  | .ending _ _ => False
  | _ => True

section Plain

variable {s : Session}

theorem acquisitions_of_plain (h : s.pc.Plain) :
    s.acquisitions = s.locks.map fun l => (l.key, l.resource) := by
  unfold acquisitions
  cases hpc : s.pc with
  | acquire _ _ | ending _ _ => rw [hpc] at h; exact h.elim
  | _ => rfl

theorem live_of_not_ending (h : ∀ release todo, s.pc ≠ .ending release todo) : s.Live l := by
  unfold Session.Live
  cases hpc : s.pc with
  | ending r todo => exact absurd hpc (h r todo)
  | _ => trivial

theorem Pc.Plain.not_ending {pc : Pc} (h : pc.Plain) (release : Bool) (todo : List (Int × String)) :
    pc ≠ .ending release todo := by
  rintro rfl
  exact h

theorem not_ending_of_acquire (h : s.pc = .acquire request key) (release : Bool)
    (todo : List (Int × String)) : s.pc ≠ .ending release todo := by
  rw [h]
  exact Pc.noConfusion

/-- What the table of a session has to record, unless the transaction is ending. -/
theorem cacheFits_iff (h : ∀ release todo, s.pc ≠ .ending release todo) :
    CacheFits s ↔ (∀ k, s.cache.lookup k = none → ∀ l ∈ s.locks, l.key ≠ k) ∧
      ∀ k entry, s.cache.lookup k = some entry → Records k s.locks entry := by
  constructor
  · intro hfits
    exact ⟨fun k hk l hl heq => hfits.absent k hk l hl heq (live_of_not_ending h), hfits.present⟩
  · rintro ⟨hnone, hsome⟩
    exact ⟨fun k hk l hl heq => absurd heq (hnone k hk l hl), hsome,
      fun r todo hpc => absurd hpc (h r todo)⟩

theorem uses_cons {s' : Session} (h : s.acquisitions = a :: s'.acquisitions) (k : Int) :
    s.uses k = s'.uses k + if k = a.1 then 1 else 0 := by
  rw [uses, h, map_cons, count_cons]
  congr 1
  exact if_congr (by rw [beq_iff_eq, eq_comm]) rfl rfl

theorem uses_pos (h : a ∈ s.acquisitions) : 0 < s.uses a.1 :=
  count_pos_iff.mpr (mem_map_of_mem h)

end Plain

/-! ### The entries of a session -/

theorem count_key :
    ((locks.map fun l => (l.key, l.resource)).map Prod.fst).count k =
      (locks.filter fun l => l.key = k).length := by
  rw [map_map, count_eq_countP, countP_map, countP_eq_length_filter]
  congr 1

theorem Records.exists_lock (h : Records k locks entry) : ∃ l ∈ locks, l.key = k := by
  obtain ⟨l, hl⟩ := exists_mem_of_ne_nil (locks.filter fun l => l.key = k) fun hnil =>
    h.modes_ne (by rw [h.modes_eq, hnil]; rfl)
  obtain ⟨hmem, hkey⟩ := mem_filter.mp hl
  exact ⟨l, hmem, of_decide_eq_true hkey⟩

theorem Records.cons (h : Records l.key locks entry) (hresource : entry.resource = l.resource)
    (hsession : entry.isSession = l.isSession) (hfull : entry.refcount + 1 < 2 ^ 32) :
    Records l.key (l :: locks) ⟨l.resource, incr entry.refcount, l.mode :: entry.modes,
      l.isSession⟩ where
  modes_ne := cons_ne_nil _ _
  modes_eq := by
    rw [filter_cons_of_pos (by simp), map_cons, ← h.modes_eq]
  refcount_eq := by
    rw [incr, Nat.mod_eq_of_lt hfull, h.refcount_eq, length_cons]
  same := by
    refine forall_mem_cons.mpr ⟨fun _ => ⟨rfl, rfl⟩, ?_⟩
    rw [← hresource, ← hsession]
    exact h.same

theorem Records.single (h : ∀ l' ∈ locks, l'.key ≠ l.key) :
    Records l.key (l :: locks) ⟨l.resource, incr 0, [l.mode], l.isSession⟩ where
  modes_ne := cons_ne_nil _ _
  modes_eq := by
    rw [filter_cons_of_pos (by simp), map_cons,
      filter_eq_nil_iff.mpr fun l' hl' => by simpa using h l' hl']
    rfl
  refcount_eq := rfl
  same := forall_mem_cons.mpr
    ⟨fun _ => ⟨rfl, rfl⟩, fun l' hl' hkey => absurd hkey (h l' hl')⟩

theorem Records.cons_ne (h : Records k locks entry) (hk : l.key ≠ k) :
    Records k (l :: locks) entry where
  modes_ne := h.modes_ne
  modes_eq := by rw [filter_cons_of_neg (by simpa using hk), ← h.modes_eq]
  refcount_eq := h.refcount_eq
  same := forall_mem_cons.mpr ⟨fun hkey => absurd hkey hk, h.same⟩

theorem Records.eraseP (h : Records k locks entry) (hmodes : entry.modes = mode :: modes)
    (hsession : isSession = entry.isSession)
    (hany : locks.any (Lock.Matches k mode isSession) = true) :
    ∃ l before after, l.key = k ∧ locks = before ++ l :: after ∧
      locks.eraseP (Lock.Matches k mode isSession) = before ++ after ∧
      modes = ((before ++ after).filter fun l => l.key = k).map Lock.mode := by
  obtain ⟨x, hx, hmatch⟩ := any_eq_true.mp hany
  obtain ⟨l, before, after, hbefore, hl, hlocks, herase⟩ := exists_of_eraseP hx hmatch
  obtain ⟨hlkey, hlmode, -⟩ := of_decide_eq_true hl
  -- a lock under the key before it would be in the first mode as well
  have hnone : (before.filter fun l => l.key = k) = [] := by
    cases hfirst : before.filter fun l => l.key = k with
    | nil => rfl
    | cons f rest =>
      have hf : f ∈ before.filter fun l => l.key = k := by
        rw [hfirst]
        exact mem_cons_self
      obtain ⟨hfmem, hfkey⟩ := mem_filter.mp hf
      have hfkey := of_decide_eq_true hfkey
      have hmodes' := h.modes_eq
      rw [hmodes, hlocks, filter_append, hfirst, cons_append, map_cons] at hmodes'
      have hfsession := (h.same f (by rw [hlocks]; exact mem_append_left _ hfmem) hfkey).2
      exact absurd (decide_eq_true ⟨hfkey, (List.cons.inj hmodes').1.symm,
        hfsession.trans hsession.symm⟩) (hbefore f hfmem)
  refine ⟨l, before, after, hlkey, hlocks, herase, ?_⟩
  have hmodes' := h.modes_eq
  rw [hmodes, hlocks, filter_append, hnone, nil_append,
    filter_cons_of_pos (by simpa using hlkey), map_cons] at hmodes'
  rw [filter_append, hnone, nil_append]
  exact (List.cons.inj hmodes').2

theorem Records.remove_ne {before after : List Lock} (h : Records k (before ++ l :: after) entry)
    (hk : l.key ≠ k) : Records k (before ++ after) entry where
  modes_ne := h.modes_ne
  modes_eq := by
    rw [h.modes_eq, filter_append, filter_append, filter_cons_of_neg (by simpa using hk)]
  refcount_eq := h.refcount_eq
  same l' hl' := h.same l' (((sublist_cons_self l after).append_left before).subset hl')

/-- The table of a session after a lock under the key is released. -/
def releasedCache (s : Session) (key : Int) (entry : LocalEnt) (modes : List LockMode) :
    AList fun _ : Int => LocalEnt :=
  if decr entry.refcount = 0 then s.cache.erase key
  else s.cache.insert key { entry with refcount := decr entry.refcount, modes := modes }

theorem lookup_releasedCache_ne (s : Session) (hk : k ≠ key) (entry : LocalEnt)
    (modes : List LockMode) : (releasedCache s key entry modes).lookup k = s.cache.lookup k := by
  unfold releasedCache
  split
  · exact lookup_erase_ne hk
  · exact lookup_insert_ne hk

theorem lookup_releasedCache_self (s : Session) (key : Int) (entry : LocalEnt)
    (modes : List LockMode) :
    (decr entry.refcount = 0 ∧ (releasedCache s key entry modes).lookup key = none) ∨
      (decr entry.refcount ≠ 0 ∧ (releasedCache s key entry modes).lookup key =
        some { entry with refcount := decr entry.refcount, modes := modes }) := by
  unfold releasedCache
  split_ifs with h
  · exact .inl ⟨h, lookup_erase _ _⟩
  · exact .inr ⟨h, lookup_insert _⟩

/-! ### Acquiring -/

section

variable {hash : String → Int} {cache cache' : HTab Int GlobalEnt} {s s' : Session}

theorem Change.kept {n n' : Int → Nat} (h : Change hash cache cache' n n')
    (ha : ∃ entry, cache a.1 = some entry ∧ entry.resource = a.2)
    (hused : 0 < n' a.1 ∨ n a.1 < refcount cache a.1) :
    ∃ entry, cache' a.1 = some entry ∧ entry.resource = a.2 := by
  obtain ⟨entry, hentry, hresource⟩ := ha
  obtain ⟨entry', hentry', hresource'⟩ := h.stays a.1 entry hentry hused
  exact ⟨entry', hentry', hresource'.trans hresource⟩

theorem OwnState.of_change (hchange : Change hash cache cache' s.uses s'.uses)
    (hrefs : ∀ a ∈ s'.acquisitions, ∃ entry, cache a.1 = some entry ∧ entry.resource = a.2)
    (hfits : CacheFits s') : OwnState cache' s' :=
  ⟨fun a ha => hchange.kept (hrefs a ha) (.inl (uses_pos ha)), hfits⟩

theorem uses_acquire (hpc : s.pc.Plain) (request : Request) (key k : Int) :
    uses { s with pc := .acquire request key } k =
      s.uses k + if k = key then 1 else 0 :=
  uses_cons (s := { s with pc := .acquire request key }) (a := (key, request.resource))
    (by rw [acquisitions_of_plain hpc]; rfl) k

theorem cacheFits_acquire (hpc : s.pc.Plain) (hfits : CacheFits s) (request : Request) (key : Int) :
    CacheFits { s with pc := .acquire request key } := by
  rw [cacheFits_iff (fun _ _ h => Pc.noConfusion h)]
  exact (cacheFits_iff hpc.not_ending).mp hfits

section

variable (hv : Sound hash cache s)
include hv

theorem quiet_keeps (hpc : s.pc.Plain) {pc : Pc} (hpc' : pc.Plain) :
    Keeps hash cache s cache { s with pc := pc } := by
  have hacq : acquisitions { s with pc := pc } = s.acquisitions := by
    rw [acquisitions_of_plain hpc, acquisitions_of_plain (s := { s with pc := pc }) hpc']
  refine ⟨hv.good.same fun k => by rw [uses, uses, hacq], ?_, ?_⟩
  · rw [hacq]
    exact hv.own.refs
  · rw [cacheFits_iff (s := { s with pc := pc }) hpc'.not_ending]
    exact (cacheFits_iff hpc.not_ending).mp hv.own.fits

theorem quiet_step {pc pc' : Pc} (hpc : s.pc = pc)
    (h : some (Effect.next cache { s with pc := pc' }) = some (.next cache' s')) (hplain : pc.Plain)
    (hplain' : pc'.Plain) : Keeps hash cache s cache' s' := by
  cases h
  exact quiet_keeps hv (hpc ▸ hplain) hplain'

theorem bump_keeps (hpc : s.pc.Plain) {entry : GlobalEnt} (hentry : cache key = some entry)
    (hresource : entry.resource = request.resource) (hfull : entry.refcount + 1 < 2 ^ 32) :
    Keeps hash cache s (enter cache key { entry with refcount := incr entry.refcount })
      { s with pc := .acquire request key } := by
  have hchange := hv.good.bump hentry hfull (uses_acquire hpc request key)
  refine ⟨hchange, .of_change hchange ?_ (cacheFits_acquire hpc hv.own.fits request key)⟩
  refine forall_mem_cons.mpr ⟨⟨entry, hentry, hresource⟩, ?_⟩
  rw [← acquisitions_of_plain hpc]
  exact hv.own.refs

theorem insertKey_keeps (hpc : s.pc.Plain)
    (hfull : ∀ k entry, cache k = some entry → entry.resource = request.resource →
      entry.refcount + 1 < 2 ^ 32) (h : insertKey hash cache s request = .next cache' s') :
    Keeps hash cache s cache' s' := by
  unfold insertKey at h
  split at h
  · rename_i key entry hfound
    obtain ⟨hentry, hresource⟩ := usableKeyFrom_found _ hfound
    cases h
    exact bump_keeps hv hpc hentry hresource (hfull key entry hentry hresource)
  · rename_i key husable
    obtain ⟨hkey, hother⟩ := usableKeyFrom_usable _ husable
    obtain ⟨hkey, hnone⟩ := hkey.resolve_left nofun
    cases h
    have hchange : Change hash cache (enter cache key ⟨request.resource, 1⟩) s.uses
        (uses { s with pc := .acquire request key }) := by
      refine hv.good.insert hnone hkey (fun k entry hentry heq => ?_) (uses_acquire hpc request key)
      have hcandidate := hv.good.candidate k entry hentry
      rw [heq] at hcandidate
      exact hother k hcandidate entry hentry heq
    refine ⟨hchange, fun a ha => ?_, cacheFits_acquire hpc hv.own.fits request key⟩
    rcases mem_cons.mp ha with rfl | ha'
    · exact ⟨_, enter_self, rfl⟩
    · rw [← acquisitions_of_plain hpc] at ha'
      exact hchange.kept (hv.own.refs a ha') (.inl (uses_pos ha))
  · cases h
    exact quiet_keeps hv hpc trivial

theorem lockAcquired_keeps (hpc : s.pc = .acquire request key)
    (howner : ∀ entry, s.cache.lookup key = some entry → entry.isSession = request.isSession) :
    Keeps hash cache s cache (lockAcquired s request key) := by
  have hplain : (lockAcquired s request key).pc.Plain := by
    unfold lockAcquired
    split <;> trivial
  have hacqs : s.acquisitions =
      (key, request.resource) :: s.locks.map fun l => (l.key, l.resource) := by
    rw [acquisitions, hpc]
  have hacq : (lockAcquired s request key).acquisitions = s.acquisitions := by
    rw [acquisitions_of_plain hplain, hacqs]
    rfl
  refine ⟨hv.good.same fun k => by rw [uses, uses, hacq], ?_, ?_⟩
  · rw [hacq]
    exact hv.own.refs
  rw [cacheFits_iff hplain.not_ending]
  obtain ⟨habsent, hpresent⟩ := (cacheFits_iff (not_ending_of_acquire hpc)).mp hv.own.fits
  -- the entry of the key in the shared table is that of the resource
  obtain ⟨shared, hshared, hresource⟩ := hv.own.refs (key, request.resource)
    (by rw [hacqs]; exact mem_cons_self)
  refine ⟨fun k hk l hl => ?_, fun k entry hk => ?_⟩
  · have hne : k ≠ key := by
      rintro rfl
      rw [lockAcquired, lookup_insert] at hk
      cases hk
    rw [lockAcquired, lookup_insert_ne hne] at hk
    rcases mem_cons.mp hl with rfl | hl
    · exact hne.symm
    · exact habsent k hk l hl
  by_cases hne : k = key
  · subst hne
    rw [lockAcquired, lookup_insert] at hk
    cases hk
    cases hold : s.cache.lookup k with
    | none =>
      exact Records.single (l := ⟨k, request.resource, request.mode, request.isSession⟩)
        (habsent k hold)
    | some old =>
      have hrecords := hpresent k old hold
      obtain ⟨l, hl, hlkey⟩ := hrecords.exists_lock
      have hold_resource : old.resource = request.resource := by
        obtain ⟨shared', hshared', hresource'⟩ := hv.own.refs (l.key, l.resource)
          (by rw [hacqs]; exact mem_cons_of_mem _ (mem_map_of_mem hl))
        rw [hlkey, hshared] at hshared'
        cases hshared'
        exact (hrecords.same l hl hlkey).1.symm.trans (hresource'.symm.trans hresource)
      refine Records.cons (l := ⟨k, request.resource, request.mode, request.isSession⟩) hrecords
        hold_resource (howner old hold) ?_
      have huses : s.uses k = old.refcount + 1 := by
        rw [uses, hacqs, map_cons, count_cons_self, count_key,
          hrecords.refcount_eq, hrecords.modes_eq, length_map]
      have hcounter := hv.good.counter k shared hshared
      have hlek := hv.le k
      rw [refcount_eq hshared] at hlek
      show old.refcount + 1 < 2 ^ 32
      omega
  · rw [lockAcquired, lookup_insert_ne hne] at hk
    exact (hpresent k entry hk).cons_ne (Ne.symm hne)

theorem refused_keeps (hpc : s.pc = .acquire request key) :
    Keeps hash cache s (applockUnrefGlobalCache cache key) { s with pc := .idle } := by
  have hacq : s.acquisitions =
      (key, request.resource) :: acquisitions { s with pc := .idle } := by
    rw [acquisitions, hpc]
    rfl
  have hchange : Change hash cache (applockUnrefGlobalCache cache key) s.uses
      (uses { s with pc := .idle }) := hv.good.unref hv.le (uses_cons hacq)
  refine ⟨hchange, .of_change hchange (fun a ha => ?_) ?_⟩
  · exact hv.own.refs a (by rw [hacq]; exact mem_cons_of_mem _ ha)
  · rw [cacheFits_iff (fun _ _ h => Pc.noConfusion h)]
    exact (cacheFits_iff (not_ending_of_acquire hpc)).mp hv.own.fits

/-! ### Releasing -/

theorem releaseFailed_keeps (hpc : s.pc.Plain)
    (h : releaseFailed cache s request = .next cache' s') : Keeps hash cache s cache' s' := by
  unfold releaseFailed at h
  split at h
  · cases h
  · cases h
    exact quiet_keeps hv hpc trivial

theorem released_keeps (hpc : s.pc.Plain) (hentry : s.cache.lookup key = some entry)
    (hsession : isSession = entry.isSession) (hmodes : entry.modes = mode :: modes)
    (hany : s.locks.any (Lock.Matches key mode isSession) = true) :
    Keeps hash cache s (applockUnrefGlobalCache cache key)
      ⟨releasedCache s key entry modes, s.locks.eraseP (Lock.Matches key mode isSession),
        .idle⟩ := by
  obtain ⟨habsent, hpresent⟩ := (cacheFits_iff hpc.not_ending).mp hv.own.fits
  have hrecords := hpresent key entry hentry
  obtain ⟨l, before, after, hlkey, hlocks, herase, hmodes'⟩ := hrecords.eraseP hmodes hsession hany
  have hself := lookup_releasedCache_self s key entry modes
  have hother := fun k (hk : k ≠ key) => lookup_releasedCache_ne s hk entry modes
  generalize releasedCache s key entry modes = cache' at hself hother ⊢
  rw [herase]
  have hsub : ∀ l' ∈ before ++ after, l' ∈ s.locks :=
    fun l' hl' => mem_of_mem_eraseP (herase ▸ hl')
  have hacq := acquisitions_of_plain hpc
  -- the entry of the key counts the lock, so that the counter of the session is one
  have hdecr : decr entry.refcount = modes.length := by
    obtain ⟨shared, hshared, -⟩ := hv.own.refs (l.key, l.resource)
      (by rw [hacq, hlocks]; exact mem_map_of_mem (mem_append_right _ mem_cons_self))
    have hcounter := hv.good.counter l.key shared hshared
    have hlekey := hv.le l.key
    rw [refcount_eq hshared, uses, hacq, count_key, hlkey, ← length_map Lock.mode,
      ← hrecords.modes_eq] at hlekey
    have hrefcount := hrecords.refcount_eq
    rw [hmodes, length_cons] at hrefcount hlekey
    unfold decr
    omega
  have hchange : Change hash cache (applockUnrefGlobalCache cache key) s.uses
      (uses ⟨cache', before ++ after, .idle⟩) := by
    refine hv.good.unref hv.le fun k => ?_
    rw [uses, uses, hacq, acquisitions_of_plain (s := ⟨_, _, .idle⟩) trivial,
      count_key, count_key, hlocks, filter_append, filter_append, length_append, length_append]
    split_ifs with hk
    · rw [filter_cons_of_pos (by simp [hlkey, hk]), length_cons]
      omega
    · rw [filter_cons_of_neg (by simp [hlkey, Ne.symm hk])]
      omega
  refine ⟨hchange, .of_change hchange (fun a ha => ?_) ?_⟩
  · obtain ⟨l', hl', rfl⟩ := mem_map.mp ha
    exact hv.own.refs _ (by rw [hacq]; exact mem_map_of_mem (hsub l' hl'))
  rw [cacheFits_iff (fun _ _ h => Pc.noConfusion h)]
  refine ⟨fun k hk l' hl' => ?_, fun k entry' hk => ?_⟩
  · by_cases hne : k = key
    · subst hne
      intro hkey
      have hnil : modes = [] := by
        rcases hself with ⟨hzero, -⟩ | ⟨-, hsome⟩
        · exact length_eq_zero_iff.mp (hdecr.symm.trans hzero)
        · cases hsome.symm.trans hk
      rw [hnil, eq_comm, map_eq_nil_iff, filter_eq_nil_iff] at hmodes'
      exact hmodes' l' hl' (decide_eq_true hkey)
    · exact habsent k ((hother k hne).symm.trans hk) l' (hsub l' hl')
  · by_cases hne : k = key
    · subst hne
      rcases hself with ⟨-, hnone⟩ | ⟨hpos, hsome⟩
      · cases hnone.symm.trans hk
      · obtain rfl := Option.some.inj (hsome.symm.trans hk)
        exact ⟨fun hnil => hpos (by rw [hdecr, show modes = [] from hnil]; rfl), hmodes', hdecr,
          fun l' hl' => hrecords.same l' (hsub l' hl')⟩
    · have h := hpresent k entry' ((hother k hne).symm.trans hk)
      rw [hlocks] at h
      exact h.remove_ne (by rw [hlkey]; exact Ne.symm hne)

theorem releaseKey_keeps (hpc : s.pc.Plain) {owned : Bool}
    (h : releaseKey cache s request key owned = .next cache' s') :
    Keeps hash cache s cache' s' := by
  unfold releaseKey at h
  split at h
  · exact releaseFailed_keeps hv hpc h
  rename_i entry hentry
  split at h
  · exact releaseFailed_keeps hv hpc h
  rename_i hsession
  split at h
  · cases h
  rename_i mode modes hmodes
  split at h
  · rename_i hany
    cases h
    exact released_keeps hv hpc hentry (not_not.mp hsession) hmodes hany.1
  · exact releaseFailed_keeps hv hpc h

end

/-! ### The end of a transaction -/

variable {release : Bool} {ref : Int × String}

theorem Lock.kept_iff : l.Kept release = true ↔ l.isSession = true ∧ release = false := by
  rw [Lock.Kept, decide_eq_true_iff, Bool.not_eq_true]

theorem Records.kept_iff (h : Records k locks entry) (hl : l ∈ locks) (hkey : l.key = k) :
    l.Kept release = true ↔ entry.Kept release := by
  rw [Lock.kept_iff, (h.same l hl hkey).2]
  rfl

theorem Records.filter_kept (h : Records k locks entry) (hkept : entry.Kept release) :
    (locks.filter fun l => decide (l.key = k) && l.Kept release) =
      locks.filter fun l => l.key = k := by
  refine filter_congr fun l hl => ?_
  by_cases hkey : l.key = k
  · rw [(h.kept_iff hl hkey).mpr hkept, Bool.and_true]
  · rw [decide_eq_false hkey, Bool.false_and]

theorem acquisitions_lockReleaseAll :
    (lockReleaseAll s release).acquisitions =
      acquisitions { s with pc := .ending release [] } := rfl

theorem lockReleaseAll_own (h : OwnState cache { s with pc := .ending release [] }) :
    OwnState cache (lockReleaseAll s release) := by
  refine ⟨by rw [acquisitions_lockReleaseAll]; exact h.refs, ?_⟩
  obtain ⟨hending, -⟩ := h.fits.ending release [] rfl
  rw [cacheFits_iff (fun _ _ h => Pc.noConfusion h)]
  refine ⟨fun k hk l hl hkey => ?_, fun k entry hk => ?_⟩
  · obtain ⟨hl, hkept⟩ := mem_filter.mp hl
    exact h.fits.absent k hk l hl hkey hkept
  · have hrecords : Records k s.locks entry := h.fits.present k entry hk
    have hkept : entry.Kept release := (hending k entry hk).resolve_right not_mem_nil
    refine ⟨hrecords.modes_ne, ?_, hrecords.refcount_eq, fun l hl hkey => ?_⟩
    · rw [hrecords.modes_eq]
      congr 1
      show _ = (s.locks.filter _).filter _
      rw [filter_filter, hrecords.filter_kept hkept]
    · exact hrecords.same l (mem_filter.mp hl).1 hkey

theorem Keeps.finish (s' : Session)
    (h : Keeps hash cache s cache' { s' with pc := .ending release todo }) :
    Keeps hash cache s cache' (if todo = [] then
        lockReleaseAll { s' with pc := .ending release todo } release
      else { s' with pc := .ending release todo }) := by
  split
  · rename_i htodo
    subst htodo
    exact ⟨h.1, lockReleaseAll_own h.2⟩
  · exact h

theorem cacheFits_unrefNext (hpc : s.pc = .ending release (ref :: todo)) (hfits : CacheFits s) :
    CacheFits { s with
      cache := if ref.1 ∈ todo.map Prod.fst then s.cache else s.cache.erase ref.1
      pc := .ending release todo } := by
  obtain ⟨hkept, hreleased⟩ := hfits.ending release (ref :: todo) hpc
  have hlive : ∀ l, s.Live l ↔ l.Kept release = true := by
    intro l
    rw [Session.Live, hpc]
  -- the entries that are left are those of before; the one of the key goes with its last turn
  have hlookup : ∀ k entry, lookup k (if ref.1 ∈ todo.map Prod.fst then s.cache
      else s.cache.erase ref.1) = some entry ↔
        s.cache.lookup k = some entry ∧ (k = ref.1 → ref.1 ∈ todo.map Prod.fst) := by
    intro k entry
    split
    · rename_i hmem
      simp [hmem]
    · rename_i hmem
      by_cases hk : k = ref.1
      · subst hk
        simp [lookup_erase, hmem]
      · rw [lookup_erase_ne hk]
        simp [hk]
  refine ⟨fun k hk l hl hkey hl' => ?_, fun k entry hk => ?_, ?_⟩
  · cases hold : s.cache.lookup k with
    | none => exact hfits.absent k hold l hl hkey ((hlive l).mpr hl')
    | some entry =>
      have hnot : ¬ (k = ref.1 → ref.1 ∈ todo.map Prod.fst) := fun h => by
        cases ((hlookup k entry).mpr ⟨hold, h⟩).symm.trans hk
      obtain ⟨rfl, -⟩ := Classical.not_imp.mp hnot
      obtain ⟨entry', hentry', hnotkept⟩ := hreleased ref.1 mem_cons_self
      exact hnotkept (((hfits.present ref.1 entry' hentry').kept_iff hl hkey).mp hl')
  · exact hfits.present k entry ((hlookup k entry).mp hk).1
  · intro r t heq
    cases heq
    refine ⟨fun k entry hk => ?_, fun k hk => ?_⟩
    · obtain ⟨hold, hmem⟩ := (hlookup k entry).mp hk
      rcases hkept k entry hold with h | h
      · exact .inl h
      · rcases mem_cons.mp h with rfl | h
        · exact .inr (hmem rfl)
        · exact .inr h
    · obtain ⟨entry, hentry, hnotkept⟩ := hreleased k (mem_cons_of_mem _ hk)
      exact ⟨entry, (hlookup k entry).mpr ⟨hentry, fun heq => heq ▸ hk⟩, hnotkept⟩

theorem unrefNext_keeps (hv : Sound hash cache s) (hpc : s.pc = .ending release (ref :: todo))
    (h : unrefNext cache s release ref todo = .next cache' s') : Keeps hash cache s cache' s' := by
  cases h
  apply Keeps.finish { s with
    cache := if ref.1 ∈ todo.map Prod.fst then s.cache else s.cache.erase ref.1 }
  have hacq : s.acquisitions = ref ::
      (todo ++ (s.locks.filter (Lock.Kept release)).map fun l => (l.key, l.resource)) := by
    rw [acquisitions, hpc]
    rfl
  have hchange : Change hash cache (applockUnrefGlobalCache cache ref.1) s.uses
      (uses { s with
        cache := if ref.1 ∈ todo.map Prod.fst then s.cache else s.cache.erase ref.1
        pc := .ending release todo }) := hv.good.unref hv.le (uses_cons hacq)
  refine ⟨hchange, .of_change hchange (fun a ha => ?_) (cacheFits_unrefNext hpc hv.own.fits)⟩
  exact hv.own.refs a (by rw [hacq]; exact mem_cons_of_mem _ ha)

theorem fst_of_mem_toUnref (h : a ∈ toUnref s release key) : a.1 = key := by
  unfold toUnref at h
  split at h
  · cases h
  · split at h
    · cases h
    · rw [(mem_replicate.mp h).2]

/-- Every key is unreferenced as often as its own entry says. -/
theorem count_flatMap_toUnref (hnodup : order.Nodup) (k : Int) :
    ((order.flatMap (toUnref s release)).map Prod.fst).count k =
      if k ∈ order then (toUnref s release k).length else 0 := by
  have hown : ∀ key, ((toUnref s release key).map Prod.fst).count k =
      if key = k then (toUnref s release k).length else 0 := by
    intro key
    split_ifs with hkey
    · subst hkey
      rw [← length_map Prod.fst, count_eq_length]
      exact forall_mem_map.mpr fun a ha => (fst_of_mem_toUnref ha).symm
    · rw [count_eq_zero]
      intro hb
      obtain ⟨a, ha, rfl⟩ := mem_map.mp hb
      exact hkey (fst_of_mem_toUnref ha).symm
  induction order with
  | nil => rfl
  | cons key order ih =>
    obtain ⟨hnotin, hnodup⟩ := nodup_cons.mp hnodup
    rw [flatMap_cons, map_append, count_append, hown, ih hnodup]
    by_cases hkey : key = k
    · subst hkey
      rw [if_pos rfl, if_neg hnotin, if_pos mem_cons_self, Nat.add_zero]
    · rw [if_neg hkey, Nat.zero_add]
      exact if_congr (by simp [Ne.symm hkey]) rfl rfl

theorem toUnref_eq (release : Bool) (hentry : s.cache.lookup k = some entry) :
    toUnref s release k = [] ∧ entry.Kept release ∨
      toUnref s release k = List.replicate entry.refcount (k, entry.resource) ∧
        ¬ entry.Kept release := by
  unfold toUnref LocalEnt.Kept
  rw [hentry]
  dsimp only
  split_ifs with h
  · exact .inl ⟨rfl, h.2, Bool.not_eq_true _ ▸ h.1⟩
  · exact .inr ⟨rfl, fun hkept => h ⟨by rw [hkept.2]; decide, hkept.1⟩⟩

/-- The references to be given back and the locks that are kept are as many as the locks. -/
theorem uses_startEnding (hpc : s.pc.Plain) (hfits : CacheFits s) (horder : order.Perm s.cache.keys)
    (k : Int) :
    s.uses k = uses
      { s with pc := .ending release (order.flatMap (toUnref s release)) } k := by
  obtain ⟨habsent, hpresent⟩ := (cacheFits_iff hpc.not_ending).mp hfits
  have hmem : k ∈ order ↔ (s.cache.lookup k).isSome = true := by
    rw [horder.mem_iff, lookup_isSome]
    exact mem_keys.symm
  unfold uses
  rw [acquisitions_of_plain hpc, count_key]
  show _ = ((order.flatMap (toUnref s release) ++ _).map Prod.fst).count k
  rw [map_append, count_append, count_key, filter_filter,
    count_flatMap_toUnref (horder.nodup_iff.mpr s.cache.nodupKeys)]
  cases hentry : s.cache.lookup k with
  | none =>
    have hnone := habsent k hentry
    rw [if_neg (by rw [hmem, hentry]; decide), filter_eq_nil_iff.mpr fun l hl => by
      simpa using hnone l hl, filter_eq_nil_iff.mpr fun l hl => by simp [hnone l hl]]
    rfl
  | some entry =>
    have hrecords := hpresent k entry hentry
    rw [if_pos (by rw [hmem, hentry]; rfl)]
    rcases toUnref_eq release hentry with ⟨heq, hkept⟩ | ⟨heq, hkept⟩
    · rw [heq, length_nil, Nat.zero_add, hrecords.filter_kept hkept]
    · have hnone : (s.locks.filter fun l => decide (l.key = k) && l.Kept release) = [] := by
        rw [filter_eq_nil_iff]
        intro l hl hboth
        obtain ⟨hkey, hlkept⟩ := Bool.and_eq_true_iff.mp hboth
        exact hkept ((hrecords.kept_iff hl (of_decide_eq_true hkey)).mp hlkept)
      rw [heq, hnone, length_replicate, hrecords.refcount_eq, hrecords.modes_eq, length_map]
      rfl

theorem entry_of_mem_toUnref (h : a ∈ toUnref s release key) :
    ∃ entry, s.cache.lookup a.1 = some entry ∧ a.2 = entry.resource ∧
      ¬ entry.Kept release := by
  obtain rfl := fst_of_mem_toUnref h
  cases hentry : s.cache.lookup a.1 with
  | none =>
    rw [toUnref, hentry] at h
    cases h
  | some entry =>
    rcases toUnref_eq release hentry with ⟨heq, -⟩ | ⟨heq, hkept⟩
    · rw [heq] at h
      cases h
    · rw [heq] at h
      exact ⟨entry, rfl, congrArg Prod.snd (mem_replicate.mp h).2, hkept⟩

theorem cacheFits_startEnding (hpc : s.pc.Plain) (hfits : CacheFits s)
    (horder : order.Perm s.cache.keys) : CacheFits
      { s with pc := .ending release (order.flatMap (toUnref s release)) } := by
  obtain ⟨habsent, hpresent⟩ := (cacheFits_iff hpc.not_ending).mp hfits
  refine ⟨fun k hk l hl hkey => absurd hkey (habsent k hk l hl), hpresent, fun r todo heq => ?_⟩
  cases heq
  refine ⟨fun k entry hentry => ?_, fun k hk => ?_⟩
  · rcases toUnref_eq (s := s) release hentry with ⟨-, hkept⟩ | ⟨hunref, -⟩
    · exact .inl hkept
    · have hrecords := hpresent k entry hentry
      have hmem : k ∈ order := by
        rw [horder.mem_iff]
        exact mem_keys.mp (lookup_isSome.mp (by rw [hentry]; rfl))
      refine .inr (mem_map.mpr ⟨(k, entry.resource), ?_, rfl⟩)
      refine mem_flatMap.mpr ⟨k, hmem, ?_⟩
      rw [hunref, mem_replicate, hrecords.refcount_eq]
      exact ⟨fun hzero => hrecords.modes_ne (length_eq_zero_iff.mp hzero), rfl⟩
  · obtain ⟨a, ha, rfl⟩ := mem_map.mp hk
    obtain ⟨key, -, ha⟩ := mem_flatMap.mp ha
    obtain ⟨entry, hentry, -, hkept⟩ := entry_of_mem_toUnref ha
    exact ⟨entry, hentry, hkept⟩

theorem startEnding_keeps (hv : Sound hash cache s) (hpc : s.pc.Plain)
    (horder : order.Perm s.cache.keys) (h : startEnding cache s release order = .next cache' s') :
    Keeps hash cache s cache' s' := by
  have hkeeps : Keeps hash cache s cache
      { s with pc := .ending release (order.flatMap (toUnref s release)) } := by
    refine ⟨hv.good.same (uses_startEnding hpc hv.own.fits horder), fun a ha => ?_,
      cacheFits_startEnding hpc hv.own.fits horder⟩
    apply hv.own.refs
    rw [acquisitions_of_plain hpc, mem_map]
    rcases mem_append.mp ha with ha | ha
    · obtain ⟨key, -, ha⟩ := mem_flatMap.mp ha
      obtain ⟨entry, hentry, hresource, -⟩ := entry_of_mem_toUnref ha
      have hrecords := hv.own.fits.present a.1 entry hentry
      obtain ⟨l, hl, hkey⟩ := hrecords.exists_lock
      exact ⟨l, hl, Prod.ext hkey ((hrecords.same l hl hkey).1.trans hresource.symm)⟩
    · obtain ⟨l, hl, rfl⟩ := mem_map.mp ha
      exact ⟨l, (mem_filter.mp hl).1, rfl⟩
  unfold startEnding at h
  split at h
  · rename_i hnil
    cases h
    rw [hnil] at hkeeps
    exact Keeps.finish s hkeeps
  · rename_i ref todo hcons
    cases h
    rwa [hcons] at hkeeps

end

/-! ### The run -/

/-- The entry of the resource can be counted up. -/
def NotFull (cache : HTab Int GlobalEnt) (resource : String) : Prop :=
  ∀ k entry, cache k = some entry → entry.resource = resource → entry.refcount + 1 < 2 ^ 32

/-- A step is careful if it counts up the entry of its own resource and not one that has taken its
place, or one at the end of its range, and acquires no lock for one kind of owner while the session
holds it for the other; if it sets no timeout that is refused, does not terminate a session that
waits, and rolls no lock of the transaction back. -/
def Careful (cache : HTab Int GlobalEnt) (s : Session) (e : Event) : Prop :=
  match s.pc, e with
  | .idle, .rollbackTo n => ∀ l ∈ s.locks.take n, l.isSession = true
  | .reference request key, .proceed _ =>
    (∃ entry, cache key = some entry ∧ entry.resource = request.resource) ∧
      NotFull cache request.resource
  | .insert request, .proceed _ => NotFull cache request.resource
  | .acquire request key, .granted =>
    ∀ entry, s.cache.lookup key = some entry → entry.isSession = request.isSession
  | .acquire request _, .proceed _ => ¬ request.BadTimeout
  | .acquire _ _, .terminated _ => False
  | _, _ => True

theorem rollbackLocks_eq {s : Session} {n : Nat} (h : ∀ l ∈ s.locks.take n, l.isSession = true) :
    rollbackLocks s n = s := by
  rw [rollbackLocks, filter_eq_self.mpr h, take_append_drop]

/-- **One step.**  A careful step keeps the tables in order. -/
theorem step_keeps {hash : String → Int} {cache cache' : HTab Int GlobalEnt} {s s' : Session}
    {e : Event} (hv : Sound hash cache s) (hcareful : Careful cache s e)
    (h : step hash cache s e = some (.next cache' s')) : Keeps hash cache s cache' s' := by
  unfold step at h
  split at h
  · rename_i hpc
    exact quiet_step hv hpc h trivial trivial
  · rename_i hpc
    exact quiet_step hv hpc h trivial trivial
  · rename_i hpc
    exact quiet_step hv hpc h trivial trivial
  · rename_i hpc
    split at h
    · rename_i horder
      exact startEnding_keeps hv (by rw [hpc]; trivial) horder (Option.some.inj h)
    · cases h
  · rename_i n hpc
    unfold Careful at hcareful
    rw [hpc] at hcareful
    rw [rollbackLocks_eq hcareful] at h
    cases h
    have hplain : s.pc.Plain := by rw [hpc]; trivial
    exact quiet_keeps hv hplain hplain
  · rename_i hpc
    split at h <;> exact quiet_step hv hpc h trivial trivial
  · rename_i request key stale hpc
    unfold Careful at hcareful
    rw [hpc] at hcareful
    obtain ⟨⟨entry, hentry, hresource⟩, hfull⟩ := hcareful
    rw [referenceKey, hentry] at h
    cases h
    exact bump_keeps hv (by rw [hpc]; trivial) hentry hresource
      (hfull key entry hentry hresource)
  · rename_i request stale hpc
    unfold Careful at hcareful
    rw [hpc] at hcareful
    exact insertKey_keeps hv (by rw [hpc]; trivial) hcareful (Option.some.inj h)
  · rename_i request key stale hpc
    unfold Careful at hcareful
    rw [hpc] at hcareful
    rw [if_neg hcareful] at h
    cases h
  · rename_i request key hpc
    unfold Careful at hcareful
    rw [hpc] at hcareful
    split at h
    · cases h
    · cases h
      exact lockAcquired_keeps hv hpc hcareful
  · rename_i hpc
    split at h
    · cases h
    · cases h
      exact refused_keeps hv hpc
  · rename_i hpc
    unfold Careful at hcareful
    rw [hpc] at hcareful
    exact hcareful.elim
  · rename_i hpc
    split at h <;> exact quiet_step hv hpc h trivial trivial
  · rename_i hpc
    exact releaseKey_keeps hv (by rw [hpc]; trivial) (Option.some.inj h)
  · rename_i hpc
    exact unrefNext_keeps hv hpc (Option.some.inj h)
  · cases h

section Run

variable {ι : Type} [Fintype ι] [DecidableEq ι] {hash : String → Int}
  {c : Config ι (HTab Int GlobalEnt) Session}

/-- What holds in all states that careful steps reach. -/
abbrev Ordered (hash : String → Int) (c : Config ι (HTab Int GlobalEnt) Session) : Prop :=
  Counted refcount Session.uses (GoodCache hash) OwnState c

omit [DecidableEq ι] in
theorem ordered_start : Ordered hash (start ι) where
  good := ⟨fun _ _ h => (by cases h), fun _ _ _ _ h => (by cases h), fun _ _ h => (by cases h)⟩
  own _ := ⟨nofun,
    ⟨nofun, fun _ _ h => (by cases h),
      fun _ _ h => (by cases h)⟩⟩
  count_eq _ := (Finset.sum_eq_zero fun _ _ => rfl).symm

theorem ordered_of_run (h : Run (step hash) Careful (start ι) c) : Ordered hash c := by
  apply Run.invariant ordered_start _ _ h
  · intro cache s e cache' s' hgood hown hle hcareful hstep
    obtain ⟨hchange, hown'⟩ := step_keeps ⟨hgood, hown, hle⟩ hcareful hstep
    exact ⟨hchange.good, hown', hchange.count⟩
  · intro cache s e cache' s' t hgood hown hcareful hstep ht hle
    have hles : ∀ k, s.uses k ≤ refcount cache k := fun k => by
      have := hle k
      omega
    obtain ⟨hchange, -⟩ := step_keeps ⟨hgood, hown, hles⟩ hcareful hstep
    refine ⟨fun a ha => ?_, ht.fits⟩
    have hused := uses_pos ha
    have hlea := hle a.1
    exact hchange.kept (ht.refs a ha) (.inr (by omega))

omit [DecidableEq ι] in
theorem consistent_of_ordered (h : Ordered hash c) : Consistent c := by
  refine ⟨h.good.unique, fun i a ha b hb heq => ?_, fun i j a ha b hb heq => ?_, h.count_eq,
    fun k entry hentry => ?_⟩
  · obtain ⟨entry, hentry, hresource⟩ := (h.own i).refs a ha
    obtain ⟨entry', hentry', hresource'⟩ := (h.own i).refs b hb
    rw [heq, hentry'] at hentry
    cases hentry
    rw [← hresource, hresource']
  · obtain ⟨entry, hentry, hresource⟩ := (h.own i).refs a ha
    obtain ⟨entry', hentry', hresource'⟩ := (h.own j).refs b hb
    exact h.good.unique _ _ entry entry' hentry hentry' (by rw [hresource, hresource', heq])
  · rw [← h.count_eq, refcount_eq hentry]
    exact (h.good.counter k entry hentry).1

end Run

/-- **The tables are consistent in all states that careful steps reach**, for any number of
sessions, any resources and any hash function. -/
theorem consistent_of_careful {ι : Type} [Fintype ι] [DecidableEq ι] {hash : String → Int}
    {c : Config ι (HTab Int GlobalEnt) Session} (h : Run (step hash) Careful (start ι) c) :
    Consistent c :=
  consistent_of_ordered (ordered_of_run h)

/-- The entry of the resource can be counted up, at whatever key of the resource it is. -/
def notFullCheck (hash : String → Int) (cache : HTab Int GlobalEnt) (resource : String) : Bool :=
  (candidates hash resource).all fun k =>
    (cache k).all fun entry => entry.resource ≠ resource ∨ entry.refcount + 1 < 2 ^ 32

/-- A step that can be seen to be careful. -/
def carefulCheck (hash : String → Int) (cache : HTab Int GlobalEnt) (s : Session) (e : Event) :
    Bool :=
  match s.pc, e with
  | .reference request key, .proceed _ =>
    (cache key).any (·.resource = request.resource) && notFullCheck hash cache request.resource
  | .insert request, .proceed _ => notFullCheck hash cache request.resource
  | .acquire request key, .granted =>
    (s.cache.lookup key).all (·.isSession = request.isSession)
  | .idle, .rollbackTo _ | .acquire _ _, .proceed _ | .acquire _ _, .terminated _ => false
  | _, _ => true

theorem notFull_of_check {hash : String → Int} {cache : HTab Int GlobalEnt} {resource : String}
    (hgood : GoodCache hash cache) (h : notFullCheck hash cache resource = true) :
    NotFull cache resource := by
  intro k entry hentry hresource
  have hk := hgood.candidate k entry hentry
  rw [hresource] at hk
  simpa [hentry, hresource] using all_eq_true.mp h k hk

theorem careful_of_check {hash : String → Int} {cache : HTab Int GlobalEnt} {s : Session}
    {e : Event} (hgood : GoodCache hash cache) (h : carefulCheck hash cache s e = true) :
    Careful cache s e := by
  unfold Careful
  split
  · rename_i hpc
    simp [carefulCheck, hpc] at h
  · rename_i request key stale hpc
    simp only [carefulCheck, hpc, Bool.and_eq_true, Option.any_eq_true, decide_eq_true_eq] at h
    exact ⟨h.1, notFull_of_check hgood h.2⟩
  · rename_i hpc
    simp only [carefulCheck, hpc] at h
    exact notFull_of_check hgood h
  · rename_i hpc
    intro entry hentry
    simpa [carefulCheck, hpc, hentry] using h
  · rename_i hpc
    simp [carefulCheck, hpc] at h
  · rename_i hpc
    simp [carefulCheck, hpc] at h
  · trivial

theorem run_of_check {ι : Type} [Fintype ι] [DecidableEq ι] {hash : String → Int}
    {c : Config ι (HTab Int GlobalEnt) Session}
    (h : Run (fun cache s e => if carefulCheck hash cache s e then step hash cache s e else none)
      (fun _ _ _ => True) (start ι) c) : Run (step hash) Careful (start ι) c := by
  induction h with
  | init => exact .init
  | step _ _ hs ih =>
    split at hs
    · rename_i hcheck
      exact ih.step (careful_of_check (ordered_of_run ih).good hcheck) hs
    · cases hs

/-- Two names with one hash.  The first session takes `A` twice for itself and `B` for a
transaction, while the second one takes `A`; then the transaction ends. -/
def carefulEvents : List (Fin 2 × Event) :=
  [(0, .getapplock "A" .shared true (-1)), (0, .proceed ⟨"", 0⟩), (0, .proceed ⟨"", 0⟩),
    (0, .granted), (0, .getapplock "B" .update false 5), (0, .proceed ⟨"", 0⟩),
    (1, .getapplock "A" .shared true 0),
    (0, .proceed ⟨"", 0⟩), (1, .proceed ⟨"", 0⟩), (0, .granted), (1, .proceed ⟨"", 0⟩),
    (0, .getapplock "A" .intentShared true (-99)), (1, .granted), (0, .proceed ⟨"", 0⟩),
    (0, .proceed ⟨"", 0⟩), (0, .granted), (0, .transactionEnd false [7, 8]), (0, .proceed ⟨"", 0⟩)]

theorem careful_run : ∃ c, Run (step fun _ => 7) Careful (start (Fin 2)) c ∧
    c.shared 7 = some ⟨"A", 3⟩ ∧ (c.session 0).pc = .idle ∧
    (c.session 0).locks = [⟨7, "A", .intentShared, true⟩, ⟨7, "A", .shared, true⟩] := by
  have heval : (Config.runAll (fun cache s e => if carefulCheck (fun _ => 7) cache s e then
        step (fun _ => 7) cache s e else none) (start (Fin 2)) carefulEvents (start (Fin 2))).map
      (fun c => (c.shared 7, (c.session 0).pc, (c.session 0).locks)) =
        some (some ⟨"A", 3⟩, .idle, [⟨7, "A", .intentShared, true⟩, ⟨7, "A", .shared, true⟩]) := by
    decide +kernel
  obtain ⟨c, hc, heq⟩ := Option.map_eq_some_iff.mp heval
  obtain ⟨hshared, heq⟩ := Prod.mk.inj heq
  exact ⟨c, run_of_check (.of_runAll .init hc), hshared, Prod.mk.inj heq⟩

/-- Three acquisitions of `A` are left. -/
theorem consistent_of_careful_two : ∃ c, Run (step fun _ => 7) Careful (start (Fin 2)) c ∧
    c.shared 7 = some ⟨"A", 3⟩ ∧ Consistent c := by
  obtain ⟨c, hrun, hshared, -⟩ := careful_run
  exact ⟨c, hrun, hshared, consistent_of_careful hrun⟩

/-- The steps of the run that leaves an entry: the second session has found the entry of the first
one, which is removed before it is counted up.  The second session makes an entry without a resource
then, and another one for its own. -/
def unusedEntryEvents : List (Fin 2 × Event) :=
  [(0, .getapplock "A" .exclusive true (-1)), (0, .proceed ⟨"", 0⟩), (0, .proceed ⟨"", 0⟩),
    (0, .granted),
    (1, .getapplock "A" .exclusive true (-1)), (1, .proceed ⟨"", 0⟩),
    (0, .releaseapplock "A" true), (0, .proceed ⟨"", 0⟩), (0, .lockRelease true),
    (1, .proceed ⟨"", 0⟩), (1, .proceed ⟨"", 0⟩), (1, .granted),
    (1, .releaseapplock "A" true), (1, .proceed ⟨"", 0⟩), (1, .lockRelease true)]

/-- A run that leaves an entry that nobody uses. -/
theorem unused_entry : ∃ c, Run (step fun _ => 7) (fun _ _ _ => True) (start (Fin 2)) c ∧
    c.shared 7 = some ⟨"", 0⟩ ∧ (∀ i, (c.session i).acquisitions = []) ∧ ¬ Consistent c := by
  have heval : (Config.runAll (step fun _ => 7) (start (Fin 2)) unusedEntryEvents
      (start (Fin 2))).map (fun c => (c.shared 7, (c.session 0).acquisitions,
        (c.session 1).acquisitions)) = some (some ⟨"", 0⟩, [], []) := by
    decide +kernel
  obtain ⟨c, hc, heq⟩ := Option.map_eq_some_iff.mp heval
  obtain ⟨hshared, hacq⟩ := Prod.mk.inj heq
  obtain ⟨hacq0, hacq1⟩ := Prod.mk.inj hacq
  have hacqs : ∀ i, (c.session i).acquisitions = [] := Fin.forall_fin_two.mpr ⟨hacq0, hacq1⟩
  refine ⟨c, Run.of_runAll .init hc, hshared, hacqs, fun h => ?_⟩
  have hused := h.used 7 _ hshared
  rw [Finset.sum_eq_zero fun i _ => by rw [Session.uses, hacqs i]; rfl] at hused
  exact absurd hused (Nat.lt_irrefl 0)

/-- The steps of a session that takes a lock for a transaction and then for itself, up to the end of
the transaction. -/
def mixedOwnersEvents : List (Fin 1 × Event) :=
  [(0, .getapplock "A" .shared false (-1)), (0, .proceed ⟨"", 0⟩), (0, .proceed ⟨"", 0⟩),
    (0, .granted), (0, .getapplock "A" .shared true (-1)), (0, .proceed ⟨"", 0⟩),
    (0, .proceed ⟨"", 0⟩), (0, .granted), (0, .transactionEnd false [7])]

end Babelfish.Tsql
