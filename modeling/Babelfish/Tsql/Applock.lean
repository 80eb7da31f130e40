import Babelfish.Lib.HashTable
import Babelfish.Lib.Interleaving
import Mathlib.Data.List.AList

/-!
# Application locks

`sp_getapplock` takes a lock of PostgreSQL whose tag holds a key, an integer that is computed from
the name of the resource.  Names with the same hash get different keys: a table in shared memory
says which resource a key stands for, and how many acquisitions there are of it.  Every session has
a table of its own with the locks it holds.

The sessions run interleaved.  What they do between two critical sections of `TsqlApplockSyncLock`
is not seen by the others, so that a step is the code up to the end of the next critical section, or
the wait for a lock.

* `Session`: the table of a session, the locks that the lock manager has granted to it, and where it
  stands in the code.
* `step`: what a session can do next.
* `Session.acquisitions`: the acquisitions of a session that are held or in progress.
-/

namespace Babelfish.Tsql

open Lib

/-! ### Keys -/

def int64Max : Int := 9223372036854775807

def applockMaxTrySearchKey : Nat := 5

/-- The key that is tried next. -/
def nextKey (key : Int) : Int := key.tmod int64Max + 1

structure GlobalEnt where
  resource : String
  refcount : Nat
deriving DecidableEq, Repr

/-- `++refcount` of a `uint32_t`. -/
def incr (refcount : Nat) : Nat := (refcount + 1) % 2 ^ 32

/-- `--refcount` of a `uint32_t`. -/
def decr (refcount : Nat) : Nat := (refcount + (2 ^ 32 - 1)) % 2 ^ 32

/-- The loop of `AppLockSearchKeyGlobal`. -/
def searchKeyFrom (cache : HTab Int GlobalEnt) (resource : String) : Nat → Int → Option Int
  | 0, _ => none
  | n + 1, key =>
    match cache key with
    | some entry =>
      if entry.resource = resource then some key
      else searchKeyFrom cache resource n (nextKey key)
    | none => searchKeyFrom cache resource n (nextKey key)

variable (hash : String → Int)

/-- `AppLockSearchKeyGlobal`, where `none` stands for -1. -/
def appLockSearchKeyGlobal (cache : HTab Int GlobalEnt) (resource : String) :
    Option Int :=
  searchKeyFrom cache resource applockMaxTrySearchKey (hash resource)

variable (cache : HTab Int GlobalEnt)

def applockUnrefGlobalCache (key : Int) : HTab Int GlobalEnt :=
  match cache key with
  | none => cache
  | some entry =>
    if decr entry.refcount = 0 then remove cache key
    else enter cache key { entry with refcount := decr entry.refcount }

/-- What the last loop of `ApplockGetUsableKey` finds. -/
inductive UsableKey where
  | found (key : Int) (entry : GlobalEnt)
  | usable (key : Int)
  | none
deriving DecidableEq, Repr

/-- The last loop of `ApplockGetUsableKey`; `usableKey` is the first free key so far. -/
def usableKeyFrom (cache : HTab Int GlobalEnt) (resource : String) :
    Nat → Int → Option Int → UsableKey
  | 0, _, none => .none
  | 0, _, some usableKey => .usable usableKey
  | n + 1, key, usableKey =>
    match cache key with
    | some entry =>
      if entry.resource = resource then .found key entry
      else usableKeyFrom cache resource n (nextKey key) usableKey
    | none => usableKeyFrom cache resource n (nextKey key) (usableKey <|> some key)

/-! ### Sessions -/

/-- The modes in which a lock can be acquired. -/
inductive LockMode where
  | intentExclusive | intentShared | shared | update | exclusive
deriving DecidableEq, Repr

structure LocalEnt where
  resource : String
  refcount : Nat
  modes : List LockMode
  isSession : Bool
deriving DecidableEq, Repr

/-- A lock that the lock manager has granted.  It knows the key, which is in the tag, the mode and
the owner; the resource for which it was acquired is noted for the statements. -/
structure Lock where
  key : Int
  resource : String
  mode : LockMode
  isSession : Bool
deriving DecidableEq, Repr

/-- A call of `_sp_getapplock_internal`, or of `_sp_releaseapplock_internal`, which does not read
the mode and the timeout; `test` says that it is made by `APPLOCK_TEST`. -/
structure Request where
  resource : String
  mode : LockMode
  isSession : Bool
  timeout : Int
  test : Bool
deriving DecidableEq, Repr

/-- `ApplockSetLockTimeout` raises an error: the setting takes no negative numbers.  There -1 is
written as 0, and -99 is not set. -/
def Request.BadTimeout (request : Request) : Prop :=
  request.timeout < 0 ∧ request.timeout ≠ -1 ∧ request.timeout ≠ -99

instance (request : Request) : Decidable request.BadTimeout :=
  inferInstanceAs (Decidable (_ ∧ _ ∧ _))

/-- Where a session stands, before its next step. -/
inductive Pc where
  /-- Between two calls. -/
  | idle
  /-- `AppLockSearchKeyGlobal`, called by `ApplockGetUsableKey`. -/
  | search (request : Request)
  /-- The second critical section of `ApplockGetUsableKey`, with the key that was found. -/
  | reference (request : Request) (key : Int)
  /-- The third critical section of `ApplockGetUsableKey`. -/
  | insert (request : Request)
  /-- `ApplockSetLockTimeout` and `LockAcquire`, with the usable key. -/
  | acquire (request : Request) (key : Int)
  /-- `AppLockSearchKeyGlobal`, called by `_sp_releaseapplock_internal`. -/
  | searchHeld (request : Request)
  /-- The rest of `_sp_releaseapplock_internal`, with the key that was found. -/
  | release (request : Request) (key : Int)
  /-- `ApplockRemoveCache`, with the keys that are still to be unreferenced, as often as they are,
  and their resources. -/
  | ending (releaseSession : Bool) (todo : List (Int × String))
deriving DecidableEq, Repr

structure Session where
  cache : AList fun _ : Int => LocalEnt
  locks : List Lock
  pc : Pc

def Session.start : Session := ⟨∅, [], .idle⟩

/-- What decides how a session goes on. -/
inductive Event where
  | getapplock (resource : String) (mode : LockMode) (isSession : Bool) (timeout : Int)
  | applockTest (resource : String) (mode : LockMode) (isSession : Bool)
  | releaseapplock (resource : String) (isSession : Bool)
  /-- The end of a transaction, or of the session, with the order in which the table is gone
  through. -/
  | transactionEnd (releaseSession : Bool) (order : List Int)
  /-- A rollback to a savepoint behind which the given number of the locks was acquired. -/
  | rollbackTo (n : Nat)
  /-- The code up to the end of the next critical section.  An entry that `HASH_ENTER` makes holds
  what was in the memory before. -/
  | proceed (stale : GlobalEnt)
  /-- `LockAcquire` returns. -/
  | granted
  /-- `LockAcquire` fails. -/
  | refused
  /-- The session is terminated in `LockAcquire`, without `PG_CATCH`. -/
  | terminated (order : List Int)
  /-- `LockRelease` returns; `owned` says whether the current resource owner has the lock, as one
  savepoint does not have the locks of another. -/
  | lockRelease (owned : Bool)
deriving DecidableEq, Repr

abbrev Step := Effect (HTab Int GlobalEnt) Session

/-! ### Acquiring -/

/-- The second critical section of `ApplockGetUsableKey`. -/
def referenceKey (s : Session) (request : Request) (key : Int) (stale : GlobalEnt) : Step :=
  match cache key with
  | some entry =>
    .next (enter cache key { entry with refcount := incr entry.refcount })
      { s with pc := .acquire request key }
  | none => .next (enter cache key stale) { s with pc := .insert request }

/-- The third critical section of `ApplockGetUsableKey`. -/
def insertKey (cache : HTab Int GlobalEnt) (s : Session) (request : Request) : Step :=
  match usableKeyFrom cache request.resource applockMaxTrySearchKey (hash request.resource)
    none with
  | .found key entry =>
    .next (enter cache key { entry with refcount := incr entry.refcount })
      { s with pc := .acquire request key }
  | .usable key =>
    .next (enter cache key ⟨request.resource, 1⟩) { s with pc := .acquire request key }
  | .none => .next cache { s with pc := .idle }

variable (s : Session)

/-- The end of `_sp_getapplock_internal`, when the lock is acquired. -/
def lockAcquired (request : Request) (key : Int) : Session :=
  let entry := (s.cache.lookup key).getD ⟨"", 0, [], false⟩
  { cache := s.cache.insert key ⟨request.resource, incr entry.refcount,
      request.mode :: entry.modes, request.isSession⟩
    locks := ⟨key, request.resource, request.mode, request.isSession⟩ :: s.locks
    pc := if request.test then .searchHeld request else .idle }

/-! ### Releasing -/

/-- A failed release.  `APPLOCK_TEST` stops the server then, and all sessions start again. -/
def releaseFailed (s : Session) (request : Request) : Step :=
  if request.test then .restart else .next cache { s with pc := .idle }

/-- The lock manager has granted such a lock. -/
def Lock.Matches (key : Int) (mode : LockMode) (isSession : Bool) (l : Lock) : Bool :=
  l.key = key ∧ l.mode = mode ∧ l.isSession = isSession

/-- The rest of `_sp_releaseapplock_internal`.  An entry without modes would make the server
stop.  The locks of a session have no resource owner, and `APPLOCK_TEST` releases what it has just
acquired. -/
def releaseKey (s : Session) (request : Request) (key : Int) (owned : Bool) : Step :=
  match s.cache.lookup key with
  | none => releaseFailed cache s request
  | some entry =>
    if request.isSession ≠ entry.isSession then releaseFailed cache s request
    else
      match entry.modes with
      | [] => .restart
      | mode :: modes =>
        if s.locks.any (Lock.Matches key mode request.isSession) ∧
            (request.isSession || request.test || owned) then
          .next (applockUnrefGlobalCache cache key)
            { cache :=
                if decr entry.refcount = 0 then s.cache.erase key
                else s.cache.insert key
                  { entry with refcount := decr entry.refcount, modes := modes }
              locks := s.locks.eraseP (Lock.Matches key mode request.isSession)
              pc := .idle }
        else releaseFailed cache s request

/-! ### The end of a transaction -/

variable (releaseSession : Bool)

/-- The lock outlasts `LockReleaseAll`. -/
def Lock.Kept (l : Lock) : Bool := l.isSession ∧ ¬ releaseSession

/-- The locks of the transaction that were acquired behind a savepoint are released; the tables do
not hear of it. -/
def rollbackLocks (n : Nat) : Session :=
  { s with locks := (s.locks.take n).filter (·.isSession) ++ s.locks.drop n }

def lockReleaseAll : Session :=
  { s with locks := s.locks.filter (Lock.Kept releaseSession), pc := .idle }

/-- The references that `ApplockRemoveCache` gives back for one entry. -/
def toUnref (key : Int) : List (Int × String) :=
  match s.cache.lookup key with
  | none => []
  | some entry =>
    if ¬ releaseSession ∧ entry.isSession then []
    else List.replicate entry.refcount (key, entry.resource)

/-- The start of `ApplockRemoveCache`. -/
def startEnding (s : Session) (releaseSession : Bool) (order : List Int) : Step :=
  match order.flatMap (toUnref s releaseSession) with
  | [] => .next cache (lockReleaseAll s releaseSession)
  | ref :: todo => .next cache { s with pc := .ending releaseSession (ref :: todo) }

/-- One turn of the inner loop of `ApplockRemoveCache`.  The entry is removed after its last turn,
and the locks are released after the last turn of all. -/
def unrefNext (s : Session) (releaseSession : Bool)
    (ref : Int × String) (todo : List (Int × String)) : Step :=
  let s' := { s with
    cache := if ref.1 ∈ todo.map Prod.fst then s.cache else s.cache.erase ref.1
    pc := .ending releaseSession todo }
  .next (applockUnrefGlobalCache cache ref.1)
    (if todo = [] then lockReleaseAll s' releaseSession else s')

/-! ### The steps -/

def step (cache : HTab Int GlobalEnt) (s : Session) (e : Event) :
    Option Step :=
  match s.pc, e with
  | .idle, .getapplock resource mode isSession timeout =>
    some (.next cache { s with pc := .search ⟨resource, mode, isSession, timeout, false⟩ })
  | .idle, .applockTest resource mode isSession =>
    some (.next cache { s with pc := .search ⟨resource, mode, isSession, 0, true⟩ })
  | .idle, .releaseapplock resource isSession =>
    some (.next cache { s with pc := .searchHeld ⟨resource, .shared, isSession, 0, false⟩ })
  | .idle, .transactionEnd releaseSession order =>
    if order.Perm s.cache.keys then some (startEnding cache s releaseSession order) else none
  | .idle, .rollbackTo n => some (.next cache (rollbackLocks s n))
  | .search request, .proceed _ =>
    match appLockSearchKeyGlobal hash cache request.resource with
    | some key => some (.next cache { s with pc := .reference request key })
    | none => some (.next cache { s with pc := .insert request })
  | .reference request key, .proceed stale => some (referenceKey cache s request key stale)
  | .insert request, .proceed _ => some (insertKey hash cache s request)
  -- the error is raised before `PG_TRY`
  | .acquire request _, .proceed _ =>
    if request.BadTimeout then some (.next cache { s with pc := .idle }) else none
  | .acquire request key, .granted =>
    if request.BadTimeout then none else some (.next cache (lockAcquired s request key))
  | .acquire request key, .refused =>
    if request.BadTimeout then none
    else some (.next (applockUnrefGlobalCache cache key) { s with pc := .idle })
  | .acquire request _, .terminated order =>
    if request.BadTimeout ∨ ¬ order.Perm s.cache.keys then none
    else some (startEnding cache { s with pc := .idle } true order)
  | .searchHeld request, .proceed _ =>
    match appLockSearchKeyGlobal hash cache request.resource with
    | some key => some (.next cache { s with pc := .release request key })
    -- `LWLockRelease` of a lock that is not held raises an error, also in `APPLOCK_TEST`
    | none => some (.next cache { s with pc := .idle })
  | .release request key, .lockRelease owned => some (releaseKey cache s request key owned)
  | .ending releaseSession (ref :: todo), .proceed _ =>
    some (unrefNext cache s releaseSession ref todo)
  | _, _ => none

def start (ι : Type) : Config ι (HTab Int GlobalEnt) Session := ⟨HTab.empty, fun _ => .start⟩

/-! ### What the sessions hold -/

/-- The acquisitions of a session that are held or in progress, each with its key and its resource.
At the end of a transaction those that have been unreferenced are held no more. -/
def Session.acquisitions : List (Int × String) :=
  match s.pc with
  | .acquire request key =>
    (key, request.resource) :: s.locks.map fun l => (l.key, l.resource)
  | .ending releaseSession todo =>
    todo ++ (s.locks.filter (Lock.Kept releaseSession)).map fun l => (l.key, l.resource)
  | _ => s.locks.map fun l => (l.key, l.resource)

def Session.uses (key : Int) : Nat := (s.acquisitions.map Prod.fst).count key

/-- The references that the shared table counts. -/
def refcount (cache : HTab Int GlobalEnt) (key : Int) : Nat :=
  match cache key with
  | none => 0
  | some entry => entry.refcount

/-- The tables are as they should be: one entry for a resource, one resource for a key and one key
for a resource among all that is held, and no entry that is not used. -/
structure Consistent {ι : Type} [Fintype ι] (c : Config ι (HTab Int GlobalEnt) Session) : Prop where
  one_entry : ∀ k k' entry entry', c.shared k = some entry → c.shared k' = some entry' →
    entry.resource = entry'.resource → k = k'
  one_resource : ∀ i, ∀ a ∈ (c.session i).acquisitions, ∀ b ∈ (c.session i).acquisitions,
    a.1 = b.1 → a.2 = b.2
  one_key : ∀ i j, ∀ a ∈ (c.session i).acquisitions, ∀ b ∈ (c.session j).acquisitions,
    a.2 = b.2 → a.1 = b.1
  refcount_eq : ∀ k, refcount c.shared k = ∑ i, (c.session i).uses k
  used : ∀ k entry, c.shared k = some entry → 0 < ∑ i, (c.session i).uses k

end Babelfish.Tsql
