import Mathlib.Data.List.Nodup
import Mathlib.Data.List.Perm.Basic
import Mathlib.Order.Basic

/-!
# The least recently used cache

A cache for a bounded number of keys, as the list of its entries with the most recently used one
in front. An access moves the entry of the key to the front, or drops it when its time has
passed. An insertion puts a new entry in front, and drops the last one when the cache is full.

That the keys are distinct and that there are not too many is part of the cache.
-/

set_option autoImplicit false

namespace DistributedFileStorage.Caching

/-- A key and its value, which expires after a time. -/
structure LruEntry (Key Value Time : Type) where
  key : Key
  value : Value
  expiresAt : Time
  deriving DecidableEq

/-- The entries by recency. -/
@[ext] structure LruCache (Key Value Time : Type) (capacity : ℕ) where
  entries : List (LruEntry Key Value Time)
  distinct : (entries.map LruEntry.key).Nodup
  bounded : entries.length ≤ capacity

namespace LruCache

variable {Key Value Time : Type} {capacity : ℕ}

/-- A cache without an entry. -/
def empty : LruCache Key Value Time capacity := ⟨[], List.nodup_nil, Nat.zero_le _⟩

/-- The keys, the most recently used one in front. -/
def keys (cache : LruCache Key Value Time capacity) : List Key := cache.entries.map LruEntry.key

@[simp] theorem entries_empty : (empty : LruCache Key Value Time capacity).entries = [] := rfl

/-- The entries without the last one, when there are as many as fit. -/
def trim (capacity : ℕ) (entries : List (LruEntry Key Value Time)) :
    List (LruEntry Key Value Time) :=
  if capacity ≤ entries.length then entries.dropLast else entries

theorem trim_sublist (capacity : ℕ) (entries : List (LruEntry Key Value Time)) :
    (trim capacity entries).Sublist entries := by
  unfold trim
  split
  · exact List.dropLast_sublist entries
  · exact List.Sublist.refl entries

theorem length_trim_lt {entries : List (LruEntry Key Value Time)} (room : 0 < capacity)
    (bounded : entries.length ≤ capacity) : (trim capacity entries).length < capacity := by
  unfold trim
  split
  · rw [List.length_dropLast]
    omega
  · omega

variable [DecidableEq Key]

/-- The entry of a key. -/
def lookup (cache : LruCache Key Value Time capacity) (key : Key) :
    Option (LruEntry Key Value Time) :=
  cache.entries.find? fun entry => entry.key = key

/-- Drop the entries of some keys. -/
def remove (cache : LruCache Key Value Time capacity) (doomed : List Key) :
    LruCache Key Value Time capacity where
  entries := cache.entries.filter fun entry => entry.key ∉ doomed
  distinct := cache.distinct.sublist (List.filter_sublist.map _)
  bounded := Nat.le_trans (List.length_filter_le _ _) cache.bounded

/-- Moving an entry to the front loses none. -/
theorem perm_touched (entries : List (LruEntry Key Value Time)) (key : Key) :
    (entries.filter (fun entry => entry.key = key) ++
      entries.filter fun entry => entry.key ≠ key).Perm entries := by
  have perm := List.filter_append_perm (fun entry : LruEntry Key Value Time => entry.key = key)
    entries
  simpa only [decide_not] using perm

/-- Move the entry of a key to the front. -/
def touch (cache : LruCache Key Value Time capacity) (key : Key) :
    LruCache Key Value Time capacity where
  entries := cache.entries.filter (fun entry => entry.key = key) ++
    cache.entries.filter fun entry => entry.key ≠ key
  distinct := ((perm_touched cache.entries key).map _).nodup_iff.mpr cache.distinct
  bounded := (perm_touched cache.entries key).length_eq.trans_le cache.bounded

/-- Put an entry in front. A full cache drops its last entry. -/
def insert (cache : LruCache Key Value Time capacity) (entry : LruEntry Key Value Time)
    (room : 0 < capacity) : LruCache Key Value Time capacity where
  entries := entry :: trim capacity (cache.remove [entry.key]).entries
  distinct := by
    have short := trim_sublist capacity (cache.remove [entry.key]).entries
    refine List.nodup_cons.mpr ⟨fun taken => ?_, ?_⟩
    · obtain ⟨other, member, same⟩ := List.mem_map.mp taken
      have kept := (List.mem_filter.mp (short.subset member)).2
      simp [same] at kept
    · exact (cache.remove [entry.key]).distinct.sublist (short.map _)
  bounded := length_trim_lt room (cache.remove [entry.key]).bounded

/-- Look up a key. An entry whose time has passed is dropped; any other is now the most recent
one. -/
def access [LT Time] [DecidableLT Time] (cache : LruCache Key Value Time capacity) (now : Time)
    (key : Key) : Option Value × LruCache Key Value Time capacity :=
  match cache.lookup key with
  | none => (none, cache)
  | some entry =>
      if entry.expiresAt < now then (none, cache.remove [key]) else (some entry.value, cache.touch key)

end LruCache

end DistributedFileStorage.Caching
