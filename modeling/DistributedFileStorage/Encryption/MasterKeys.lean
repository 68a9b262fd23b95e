import DistributedFileStorage.Async.Interference
import DistributedFileStorage.Encoding.Base64
import DistributedFileStorage.Nodes.Disk

/-!
# Master keys and their caches

The hardware security module keeps every version of the master key and answers three
requests: for the current key, for the key of a version, and to rotate. Each instance of
the encryption service has a cache of keys in its memory.

A request and each use of a cache is one call, so whatever lies between the answer of the
module and its arrival at an instance may happen in between. The random bytes that the
module draws for a new key are an argument of the request to rotate.
-/

set_option autoImplicit false

namespace DistributedFileStorage.Encryption

open Async Store Nodes Relational Encoding

/-- A version of the master key. -/
abbrev MasterKey := ℕ × Buffer

/-! ## The security module -/

/-- The state of the module: it has a key for the current version, which is the latest. -/
structure Hsm where
  masterKeys : Table (Prod.fst : MasterKey → ℕ)
  currentKeyVersion : ℕ
  current : currentKeyVersion ∈ masterKeys.keys
  latest : ∀ version ∈ masterKeys.keys, version ≤ currentKeyVersion

/-- The answer to a request for a key, with the key in base64. -/
structure MasterKeyResponse where
  keyVersion : ℕ
  key : String
  deriving DecidableEq

namespace Hsm

/-- The module when it starts, with the random bytes of its first key. -/
def new (randomBytes : Buffer) : Hsm where
  masterKeys := (Table.empty _).insertIfAbsent (1, randomBytes)
  currentKeyVersion := 1
  current := by simp
  latest := by simp

variable (hsm : Hsm)

/-- `GET /master-key`. -/
def getMasterKey : MasterKeyResponse where
  keyVersion := hsm.currentKeyVersion
  key := Base64.encode ((hsm.masterKeys.find? hsm.currentKeyVersion).get
    (Table.isSome_find?_iff.mpr hsm.current)).2

/-- `GET /master-key/:version`, without a value for the status 404. -/
def getMasterKeyVersion (version : ℕ) : Option MasterKeyResponse :=
  (hsm.masterKeys.find? version).map fun masterKey =>
    { keyVersion := version, key := Base64.encode masterKey.2 }

/-- `POST /master-key/rotate`. -/
def rotate (randomBytes : Buffer) : Hsm where
  masterKeys := hsm.masterKeys.upsert (hsm.currentKeyVersion + 1, randomBytes)
  currentKeyVersion := hsm.currentKeyVersion + 1
  current := Table.mem_keys_upsert.mpr (.inr rfl)
  latest := by
    intro version member
    rcases Table.mem_keys_upsert.mp member with old | rfl
    · exact (hsm.latest version old).trans (Nat.le_succ _)
    · exact le_refl _

variable {hsm}

/-- The answer for the current key holds the key of its version. -/
theorem find?_getMasterKey : hsm.masterKeys.find? hsm.getMasterKey.keyVersion =
    some (hsm.getMasterKey.keyVersion, Base64.decode hsm.getMasterKey.key) := by
  have found := (Option.some_get (Table.isSome_find?_iff.mpr hsm.current)).symm
  have version := (Table.find?_eq_some_iff.mp found).2
  rw [getMasterKey, Base64.decode_encode]
  exact found.trans (congrArg some (Prod.ext version rfl))

theorem find?_getMasterKeyVersion {version : ℕ} {response : MasterKeyResponse}
    (answered : hsm.getMasterKeyVersion version = some response) :
    hsm.masterKeys.find? version = some (version, Base64.decode response.key) := by
  obtain ⟨masterKey, found, rfl⟩ := Option.map_eq_some_iff.mp answered
  have same : masterKey.1 = version := (Table.find?_eq_some_iff.mp found).2
  rw [Base64.decode_encode, found, ← same]

/-- A rotation keeps the keys of all versions. -/
theorem find?_rotate {version : ℕ} {masterKey : MasterKey} (randomBytes : Buffer)
    (found : hsm.masterKeys.find? version = some masterKey) :
    (hsm.rotate randomBytes).masterKeys.find? version = some masterKey := by
  have present : version ∈ hsm.masterKeys.keys :=
    Table.isSome_find?_iff.mp (Option.isSome_iff_exists.mpr ⟨masterKey, found⟩)
  have older : version ≠ hsm.currentKeyVersion + 1 := by
    have bound := hsm.latest version present
    omega
  rw [← found]
  exact Table.find?_upsert_of_ne older

end Hsm

/-! ## The calls of the encryption service -/

variable {Instance : Type}

/-- A request to the security module, or a use of the cache of an instance. -/
inductive KeyCall (Instance : Type) where
  | getMasterKey
  | getMasterKeyVersion (version : ℕ)
  | rotateMasterKey (randomBytes : Buffer)
  | cacheGet (owner : Instance) (version : ℕ)
  | cacheSet (owner : Instance) (version : ℕ) (masterKey : Buffer)
  | cacheClear (owner : Instance)

/-- What a call resolves to. A rotation resolves to the new version. -/
@[reducible] def KeyCall.Result : KeyCall Instance → Type
  | getMasterKey => MasterKeyResponse
  | getMasterKeyVersion _ => Option MasterKeyResponse
  | rotateMasterKey _ => ℕ
  | cacheGet _ _ => Option Buffer
  | cacheSet _ _ _ => Unit
  | cacheClear _ => Unit

/-- The interface that the methods of the encryption service are programs over. -/
abbrev keys (Instance : Type) : Interface := ⟨KeyCall Instance, KeyCall.Result, Failure⟩

/-- The security module and the caches of the instances. -/
structure KeyState (Instance : Type) where
  hsm : Hsm
  caches : Instance → Table (Prod.fst : MasterKey → ℕ)

/-- The instances start with an empty cache. -/
def KeyState.new (hsm : Hsm) : KeyState Instance := ⟨hsm, fun _ => .empty _⟩

variable [DecidableEq Instance]

/-- Change the cache of an instance. -/
def KeyState.setCache (state : KeyState Instance) (owner : Instance)
    (cache : Table (Prod.fst : MasterKey → ℕ)) : KeyState Instance :=
  { state with caches := Function.update state.caches owner cache }

/-- What a call does. -/
def KeyCall.exec (state : KeyState Instance) :
    (call : KeyCall Instance) → Except Failure call.Result × KeyState Instance
  | getMasterKey => (.ok state.hsm.getMasterKey, state)
  | getMasterKeyVersion version => (.ok (state.hsm.getMasterKeyVersion version), state)
  | rotateMasterKey randomBytes =>
      (.ok (state.hsm.currentKeyVersion + 1), { state with hsm := state.hsm.rotate randomBytes })
  | cacheGet owner version => (.ok (((state.caches owner).find? version).map Prod.snd), state)
  | cacheSet owner version masterKey =>
      (.ok (), state.setCache owner ((state.caches owner).upsert (version, masterKey)))
  | cacheClear owner => (.ok (), state.setCache owner (.empty _))

/-- The calls as a handler. None of them fails. -/
def execKeys : Handler (keys Instance) (KeyState Instance) := fun call state => call.exec state

end DistributedFileStorage.Encryption
