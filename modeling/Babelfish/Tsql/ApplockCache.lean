import Babelfish.Tsql.Applock

/-!
# The shared table of the application locks

A step counts an entry of the shared table up or down, makes one or removes one.

* `GoodCache`: what holds of the table.
* `usableKeyFrom_found`, `usableKeyFrom_usable`: what `ApplockGetUsableKey` finds in it.
* `Change`: what a step has to do with the table, given how the use of the keys changes.
* `GoodCache.bump`, `GoodCache.insert`, `GoodCache.unref`: the ways in which a step does it.
-/

namespace Babelfish.Tsql

open Lib

variable {entry : GlobalEnt} {n : Nat}

/-! ### The shared table -/

/-- The keys that are tried, from one on. -/
def probe : Nat → Int → List Int
  | 0, _ => []
  | n + 1, key => key :: probe n (nextKey key)

def candidates (hash : String → Int) (resource : String) : List Int :=
  probe applockMaxTrySearchKey (hash resource)

/-- Every entry has a key of its resource, no resource has two entries, and the counters count. -/
structure GoodCache (hash : String → Int) (cache : HTab Int GlobalEnt) : Prop where
  candidate : ∀ k entry, cache k = some entry → k ∈ candidates hash entry.resource
  unique : ∀ k k' entry entry', cache k = some entry → cache k' = some entry' →
    entry.resource = entry'.resource → k = k'
  counter : ∀ k entry, cache k = some entry → 0 < entry.refcount ∧ entry.refcount < 2 ^ 32

section UsableKey

variable {cache : HTab Int GlobalEnt} {resource : String} {k : Int} {usableKey : Option Int}

theorem usableKeyFrom_found (key : Int)
    (h : usableKeyFrom cache resource n key usableKey = .found k entry) :
    cache k = some entry ∧ entry.resource = resource := by
  induction n generalizing key usableKey with
  | zero => cases usableKey <;> cases h
  | succ n ih =>
    rw [usableKeyFrom] at h
    cases hentry : cache key with
    | none =>
      rw [hentry] at h
      exact ih _ h
    | some entry' =>
      rw [hentry] at h
      dsimp only at h
      split_ifs at h with hresource
      · cases h
        exact ⟨hentry, hresource⟩
      · exact ih _ h

theorem usableKeyFrom_usable (key : Int)
    (h : usableKeyFrom cache resource n key usableKey = .usable k) :
    (usableKey = some k ∨ (k ∈ probe n key ∧ cache k = none)) ∧
      ∀ k' ∈ probe n key, ∀ entry, cache k' = some entry → entry.resource ≠ resource := by
  induction n generalizing key usableKey with
  | zero =>
    cases usableKey with
    | none => cases h
    | some k' =>
      cases h
      exact ⟨.inl rfl, nofun⟩
  | succ n ih =>
    rw [usableKeyFrom] at h
    simp only [probe, List.mem_cons, forall_eq_or_imp]
    cases hentry : cache key with
    | none =>
      rw [hentry] at h
      obtain ⟨hk, hother⟩ := ih _ h
      refine ⟨?_, fun entry h' => (by cases h'), hother⟩
      rcases hk with hk | ⟨hk, hnone⟩
      · cases usableKey with
        | none =>
          cases hk
          exact .inr ⟨.inl rfl, hentry⟩
        | some k' => exact .inl hk
      · exact .inr ⟨.inr hk, hnone⟩
    | some entry =>
      rw [hentry] at h
      dsimp only at h
      split_ifs at h with hresource
      · obtain ⟨hk, hother⟩ := ih _ h
        refine ⟨?_, fun entry' h => ?_, hother⟩
        · rcases hk with hk | ⟨hk, hnone⟩
          · exact .inl hk
          · exact .inr ⟨.inr hk, hnone⟩
        · cases h
          exact hresource

end UsableKey

/-- The shared table changes as the use of the keys does, and entries that are still used stay. -/
structure Change (hash : String → Int) (cache cache' : HTab Int GlobalEnt)
    (before after : Int → Nat) : Prop where
  good : GoodCache hash cache'
  count : ∀ k, refcount cache' k + before k = refcount cache k + after k
  stays : ∀ k entry, cache k = some entry → 0 < after k ∨ before k < refcount cache k →
    ∃ entry', cache' k = some entry' ∧ entry'.resource = entry.resource

section Change

variable {hash : String → Int} {cache : HTab Int GlobalEnt} {before after : Int → Nat} {key k : Int}

theorem refcount_eq (h : cache k = some entry) : refcount cache k = entry.refcount := by
  rw [refcount, h]

theorem refcount_remove :
    refcount (remove cache key) k = if k = key then 0 else refcount cache k := by
  unfold refcount remove
  split_ifs <;> rfl

theorem refcount_enter :
    refcount (enter cache key entry) k = if k = key then entry.refcount else refcount cache k := by
  unfold refcount enter
  split_ifs <;> rfl

theorem enter_stays (hentry : cache key = some entry) {e : GlobalEnt} (he : cache k = some e) :
    ∃ e', enter cache key { entry with refcount := n } k = some e' ∧ e'.resource = e.resource := by
  by_cases hk : k = key
  · subst hk
    rw [he] at hentry
    cases hentry
    exact ⟨_, enter_self, rfl⟩
  · exact ⟨e, by rw [enter_ne hk, he], rfl⟩

variable (h : GoodCache hash cache)
include h

theorem GoodCache.same (huses : ∀ k, before k = after k) :
    Change hash cache cache before after where
  good := h
  count k := by rw [huses]
  stays k entry hentry _ := ⟨entry, hentry, rfl⟩

theorem GoodCache.setCounter (hentry : cache key = some entry) (hn : 0 < n ∧ n < 2 ^ 32) :
    GoodCache hash (enter cache key { entry with refcount := n }) := by
  -- the entries are those of before, apart from the counter
  have hresource : ∀ k e, enter cache key { entry with refcount := n } k = some e →
      ∃ e', cache k = some e' ∧ e'.resource = e.resource := by
    intro k e he
    rcases enter_eq_some.mp he with ⟨rfl, rfl⟩ | ⟨_, he'⟩
    · exact ⟨entry, hentry, rfl⟩
    · exact ⟨e, he', rfl⟩
  refine ⟨fun k e he => ?_, fun k k' e e' he he' hr => ?_, fun k e he => ?_⟩
  · obtain ⟨e', he', hr⟩ := hresource k e he
    rw [← hr]
    exact h.candidate k e' he'
  · obtain ⟨f, hf, hfr⟩ := hresource k e he
    obtain ⟨f', hf', hfr'⟩ := hresource k' e' he'
    exact h.unique k k' f f' hf hf' (by rw [hfr, hfr', hr])
  · rcases enter_eq_some.mp he with ⟨rfl, rfl⟩ | ⟨_, he'⟩
    · exact hn
    · exact h.counter k e he'

theorem GoodCache.bump (hentry : cache key = some entry) (hfull : entry.refcount + 1 < 2 ^ 32)
    (huses : ∀ k, after k = before k + if k = key then 1 else 0) :
    Change hash cache (enter cache key { entry with refcount := incr entry.refcount })
      before after := by
  have hincr : incr entry.refcount = entry.refcount + 1 := Nat.mod_eq_of_lt hfull
  refine ⟨h.setCounter hentry (by omega), fun k => ?_, fun k e he _ => enter_stays hentry he⟩
  rw [refcount_enter, huses]
  split_ifs with hk
  · rw [hk, refcount_eq hentry]
    dsimp only
    omega
  · omega

theorem GoodCache.insert {resource : String} (hnone : cache key = none)
    (hkey : key ∈ candidates hash resource)
    (hother : ∀ k entry, cache k = some entry → entry.resource ≠ resource)
    (huses : ∀ k, after k = before k + if k = key then 1 else 0) :
    Change hash cache (enter cache key ⟨resource, 1⟩) before after := by
  refine ⟨⟨fun k e he => ?_, fun k k' e e' he he' hr => ?_, fun k e he => ?_⟩, fun k => ?_,
    fun k e he _ => ?_⟩
  · rcases enter_eq_some.mp he with ⟨rfl, rfl⟩ | ⟨_, hold⟩
    · exact hkey
    · exact h.candidate k e hold
  · rcases enter_eq_some.mp he with ⟨hk, heq⟩ | ⟨hk, hold⟩
    · rcases enter_eq_some.mp he' with ⟨hk', heq'⟩ | ⟨hk', hold'⟩
      · rw [hk, hk']
      · exact absurd (by rw [← hr, heq]) (hother k' e' hold')
    · rcases enter_eq_some.mp he' with ⟨hk', heq'⟩ | ⟨hk', hold'⟩
      · exact absurd (by rw [hr, heq']) (hother k e hold)
      · exact h.unique k k' e e' hold hold' hr
  · rcases enter_eq_some.mp he with ⟨rfl, rfl⟩ | ⟨_, hold⟩
    · dsimp only
      omega
    · exact h.counter k e hold
  · have hzero : refcount cache key = 0 := by rw [refcount, hnone]
    rw [refcount_enter, huses]
    split_ifs with hk
    · rw [hk, hzero]
      dsimp only
      omega
    · omega
  · have hk : k ≠ key := by
      rintro rfl
      rw [hnone] at he
      cases he
    exact ⟨e, by rw [enter_ne hk, he], rfl⟩

/-- An entry that is in use is counted down, and removed when nobody uses it any more. -/
theorem GoodCache.unref (hle : ∀ k, before k ≤ refcount cache k)
    (huses : ∀ k, before k = after k + if k = key then 1 else 0) :
    Change hash cache (applockUnrefGlobalCache cache key) before after := by
  have hused : 0 < before key := by
    rw [huses, if_pos rfl]
    omega
  obtain ⟨entry, hentry⟩ : ∃ entry, cache key = some entry := by
    cases hentry : cache key with
    | none =>
      have := hle key
      rw [refcount, hentry] at this
      dsimp only at this
      omega
    | some entry => exact ⟨entry, rfl⟩
  have hcounter := h.counter key entry hentry
  have hcount := refcount_eq hentry
  have hlekey := hle key
  have huseskey := huses key
  rw [if_pos rfl] at huseskey
  have hdecr : decr entry.refcount = entry.refcount - 1 := by
    unfold decr
    omega
  have hunref : applockUnrefGlobalCache cache key =
      if entry.refcount - 1 = 0 then remove cache key
      else enter cache key { entry with refcount := entry.refcount - 1 } := by
    rw [applockUnrefGlobalCache, hentry, ← hdecr]
  rw [hunref]
  split_ifs
  · refine ⟨⟨fun k e he => ?_, fun k k' e e' he he' hr => ?_, fun k e he => ?_⟩, fun k => ?_,
      fun k e he huse => ?_⟩
    · exact h.candidate k e (remove_eq_some.mp he).2
    · exact h.unique k k' e e' (remove_eq_some.mp he).2 (remove_eq_some.mp he').2 hr
    · exact h.counter k e (remove_eq_some.mp he).2
    · rw [refcount_remove, huses]
      split_ifs with hk
      · rw [hk]
        omega
      · omega
    · have hk : k ≠ key := by
        rintro rfl
        omega
      exact ⟨e, by rw [remove_ne hk, he], rfl⟩
  · refine ⟨h.setCounter hentry (by omega), fun k => ?_, fun k e he _ => enter_stays hentry he⟩
    rw [refcount_enter, huses]
    split_ifs with hk
    · rw [hk]
      dsimp only
      omega
    · omega

end Change

end Babelfish.Tsql
