import Mathlib.Order.Lattice
import Mathlib.Logic.Function.Basic

/-!
# Caches whose entries expire

A cache keeps a value for each of some keys, up to a time. An entry is live before that time;
afterwards the cache answers as if it had none.

What a cache answers is as good as the values that were put in. `TimedCache.Sound` says that every
live answer is in a relation with its key. The relation is kept when time passes and when an
entry is removed, and a new entry has to be in it. When what the values stand for changes,
the relation for the changed keys is restored by removing their entries.
-/

set_option autoImplicit false

namespace DistributedFileStorage.Caching

/-- A value, and the time from which on it is not used any more. -/
structure CacheEntry (Value Time : Type) where
  result : Value
  expiresAt : Time
  deriving DecidableEq

/-- The entries by their keys. -/
abbrev TimedCache (Key Value Time : Type) : Type := Key → Option (CacheEntry Value Time)

namespace TimedCache

variable {Key Value Time : Type} [LinearOrder Time]

/-- A cache without an entry. -/
def empty : TimedCache Key Value Time := fun _ => none

/-- The value of the live entry of a key. -/
def lookup (cache : TimedCache Key Value Time) (now : Time) (key : Key) : Option Value :=
  match cache key with
  | none => none
  | some entry => if now < entry.expiresAt then some entry.result else none

variable {cache : TimedCache Key Value Time} {now later expiresAt : Time} {key other : Key}
  {keys : List Key} {value result : Value}

theorem lookup_eq_some_iff :
    lookup cache now key = some value ↔
      ∃ entry, cache key = some entry ∧ now < entry.expiresAt ∧ entry.result = value := by
  unfold lookup
  cases cache key with
  | none => simp
  | some entry => by_cases live : now < entry.expiresAt <;> simp [live]

@[simp] theorem lookup_empty : lookup (empty : TimedCache Key Value Time) now key = none := rfl

/-- An answer that is live later is live now. -/
theorem lookup_of_later (order : now ≤ later) (live : lookup cache later key = some value) :
    lookup cache now key = some value := by
  obtain ⟨entry, held, before, same⟩ := lookup_eq_some_iff.mp live
  exact lookup_eq_some_iff.mpr ⟨entry, held, lt_of_le_of_lt order before, same⟩

/-- Every live answer is in the relation with its key. -/
def Sound (holds : Key → Value → Prop) (cache : TimedCache Key Value Time) (now : Time) : Prop :=
  ∀ key value, lookup cache now key = some value → holds key value

variable {holds holdsLater : Key → Value → Prop}

theorem Sound.empty : Sound holds (TimedCache.empty : TimedCache Key Value Time) now := by
  intro key value live
  simp at live

/-- Time may pass. -/
theorem Sound.elapse (sound : Sound holds cache now) (order : now ≤ later) :
    Sound holds cache later :=
  fun key value live => sound key value (lookup_of_later order live)

/-- When the relation changes for no live answer, the cache may stay. -/
theorem Sound.change (sound : Sound holds cache now)
    (still : ∀ key value, lookup cache now key = some value → holds key value →
      holdsLater key value) : Sound holdsLater cache now :=
  fun key value live => still key value live (sound key value live)

/-! ## Changes of a cache -/

variable [DecidableEq Key]

/-- Put in a value, up to a time. -/
def put (cache : TimedCache Key Value Time) (key : Key) (result : Value) (expiresAt : Time) :
    TimedCache Key Value Time :=
  Function.update cache key (some ⟨result, expiresAt⟩)

/-- Remove the entries of some keys. -/
def remove (cache : TimedCache Key Value Time) (keys : List Key) : TimedCache Key Value Time :=
  fun key => if key ∈ keys then none else cache key

theorem lookup_put_self :
    lookup (put cache key result expiresAt) now key =
      if now < expiresAt then some result else none := by
  simp [lookup, put]

theorem lookup_put_of_ne (different : other ≠ key) :
    lookup (put cache key result expiresAt) now other = lookup cache now other := by
  simp [lookup, put, different]

theorem lookup_remove_of_mem (member : key ∈ keys) : lookup (remove cache keys) now key = none := by
  simp [lookup, remove, member]

theorem lookup_remove_of_not_mem (kept : key ∉ keys) :
    lookup (remove cache keys) now key = lookup cache now key := by
  simp [lookup, remove, kept]

/-- A value that is not live stays so when another one, or one of another key, is put in. -/
theorem lookup_put_ne (different : ¬ (other = key ∧ result = value))
    (expired : lookup cache now key ≠ some value) :
    lookup (put cache other result expiresAt) now key ≠ some value := by
  by_cases same : key = other
  · subst same
    rw [lookup_put_self]
    split
    · exact fun live => different ⟨rfl, Option.some.inj live⟩
    · exact nofun
  · rw [lookup_put_of_ne same]
    exact expired

theorem lookup_remove_ne (cleared : key ∈ keys ∨ lookup cache now key ≠ some value) :
    lookup (remove cache keys) now key ≠ some value := by
  by_cases removed : key ∈ keys
  · rw [lookup_remove_of_mem removed]
    exact nofun
  · rw [lookup_remove_of_not_mem removed]
    exact cleared.resolve_left removed

/-- A new entry has to be in the relation. -/
theorem Sound.put (sound : Sound holds cache now) (here : holds key result) :
    Sound holds (put cache key result expiresAt) now := by
  intro other value live
  by_cases same : other = key
  · subst same
    rw [lookup_put_self] at live
    split at live
    · rwa [← Option.some.inj live]
    · cases live
  · rw [lookup_put_of_ne same] at live
    exact sound other value live

/-- **When the relation changes for no live answer but those of some keys, removing their entries
restores it.** -/
theorem Sound.remove (sound : Sound holds cache now)
    (elsewhere : ∀ key, key ∉ keys → ∀ value, lookup cache now key = some value →
      holds key value → holdsLater key value) :
    Sound holdsLater (remove cache keys) now := by
  intro key value live
  by_cases removed : key ∈ keys
  · rw [lookup_remove_of_mem removed] at live
    cases live
  · rw [lookup_remove_of_not_mem removed] at live
    exact elsewhere key removed value live (sound key value live)

end TimedCache

end DistributedFileStorage.Caching
