import DistributedFileStorage.Encryption.MasterKeys

/-!
# The encryption service

The methods of `EncryptionServiceImpl`, each as a program over the requests to the security
module and the cache of the instance. A chunk is encrypted under a key that is derived from
the current master key and the identifier of the file, and is tagged with the version of
that master key. It is decrypted under the key of its tag.

The cipher and the keyed hash are parameters. The initialization vector that a method draws
at random is an argument.
-/

set_option autoImplicit false

namespace DistributedFileStorage.Encryption

open Async Store Nodes Encoding

/-- AES-256-GCM. Encryption gives the data and the authentication tag. Where the cipher
throws, it gives the message of the error. -/
structure Aes256Gcm where
  encrypt : (key iv plaintext : Buffer) → Except String (Buffer × Buffer)
  decrypt : (key iv data authTag : Buffer) → Except String Buffer
  decrypt_encrypt : ∀ {key iv plaintext data authTag : Buffer},
    encrypt key iv plaintext = .ok (data, authTag) → decrypt key iv data authTag = .ok plaintext

/-- An encrypted chunk with its metadata. -/
structure EncryptedChunk where
  data : Buffer
  iv : Buffer
  authTag : Buffer
  keyVersion : ℕ
  deriving DecidableEq

/-- `Buffer.from(text)`, the bytes of the text in UTF-8. -/
def utf8 (text : String) : Buffer := text.toUTF8.data.toList

namespace EncryptionServiceImpl

variable {Instance : Type}

/-- A method of the service: what an `async` method with this result does. -/
abbrev Method (Instance α : Type) : Type := Program (keys Instance) α

/-- Await a call. -/
abbrev await (call : KeyCall Instance) : Method Instance call.Result :=
  Program.perform (I := keys Instance) call

/-- `throw new Error(message)`. -/
def reject {α : Type} (message : String) : Method Instance α :=
  Program.throw (I := keys Instance) (.error message)

def keyLength : ℕ := 32

/-- HKDF with one block: extract with a fixed salt, expand with the file as information. -/
def deriveFileKey (hmac : Buffer → Buffer → Buffer) (masterKey : Buffer) (fileId : String) :
    Buffer :=
  let salt := utf8 "distributed-file-storage-salt"
  let info := utf8 s!"file:{fileId}"
  let prk := hmac salt masterKey
  let okm := hmac prk (info ++ [1])
  okm.take keyLength

def getMasterKey (self : Instance) : Method Instance MasterKey := do
  let response ← await .getMasterKey
  let masterKey := Base64.decode response.key
  let keyVersion := response.keyVersion
  await (.cacheSet self keyVersion masterKey)
  pure (keyVersion, masterKey)

def getMasterKeyVersion (self : Instance) (version : ℕ) : Method Instance Buffer := do
  match ← await (.cacheGet self version) with
  | some masterKey => pure masterKey
  | none =>
      match ← await (.getMasterKeyVersion version) with
      | some response =>
          let masterKey := Base64.decode response.key
          await (.cacheSet self version masterKey)
          pure masterKey
      | none => reject s!"Failed to get master key version {version}: 404"

variable (hmac : Buffer → Buffer → Buffer) (aes : Aes256Gcm)

def encryptChunk (self : Instance) (chunkData : Buffer) (fileId : String) (iv : Buffer) :
    Method Instance EncryptedChunk := do
  let (keyVersion, masterKey) ← getMasterKey self
  let fileKey := deriveFileKey hmac masterKey fileId
  match aes.encrypt fileKey iv chunkData with
  | .ok (data, authTag) =>
      pure { data := data, iv := iv, authTag := authTag, keyVersion := keyVersion }
  | .error message => reject message

def decryptChunkWithMetadata (self : Instance) (encryptedChunk : EncryptedChunk)
    (fileId : String) : Method Instance Buffer := do
  let masterKey ← getMasterKeyVersion self encryptedChunk.keyVersion
  let fileKey := deriveFileKey hmac masterKey fileId
  match aes.decrypt fileKey encryptedChunk.iv encryptedChunk.data encryptedChunk.authTag with
  | .ok decrypted => pure decrypted
  | .error message => reject message

def generateFileKey (self : Instance) (fileId : String) : Method Instance String := do
  let (_, masterKey) ← getMasterKey self
  pure (Base64.encode (deriveFileKey hmac masterKey fileId))

def rotateMasterKey (self : Instance) (randomBytes : Buffer) : Method Instance Unit := do
  let _ ← await (.rotateMasterKey randomBytes)
  -- the next encryption has to fetch the new key
  await (.cacheClear self)

/-! ## One encryption -/

/-- The key under which the chunks of a file are encrypted now. -/
def currentFileKey (hsm : Hsm) (fileId : String) : Buffer :=
  deriveFileKey hmac (Base64.decode hsm.getMasterKey.key) fileId

variable {hmac aes}

/-- An encryption that nothing interrupts uses the current key. -/
theorem encrypt_of_runs [DecidableEq Instance] {self : Instance} {chunkData iv : Buffer}
    {fileId : String} {before after : KeyState Instance} {chunk : EncryptedChunk}
    (encrypts : Runs execKeys.semantics (encryptChunk hmac aes self chunkData fileId iv) before
      (.ok chunk) after) :
    aes.encrypt (currentFileKey hmac before.hsm fileId) iv chunkData =
      .ok (chunk.data, chunk.authTag) := by
  have run := runs_semantics_iff.mp encrypts
  have fetched : (getMasterKey self).run execKeys before =
      (.ok (before.hsm.getMasterKey.keyVersion, Base64.decode before.hsm.getMasterKey.key),
        (execKeys (.cacheSet self before.hsm.getMasterKey.keyVersion
          (Base64.decode before.hsm.getMasterKey.key)) before).2) := rfl
  rw [encryptChunk, Program.run_bind_ok execKeys fetched] at run
  dsimp only at run
  unfold currentFileKey
  cases made : aes.encrypt (deriveFileKey hmac (Base64.decode before.hsm.getMasterKey.key) fileId) iv
      chunkData with
  | error message =>
      rw [made] at run
      cases run
  | ok result =>
      rw [made] at run
      cases run
      rfl

end EncryptionServiceImpl

end DistributedFileStorage.Encryption
