import DistributedFileStorage.Encryption.EncryptionService

/-!
# Keys agree across instances and rotations

Any number of instances encrypt, decrypt, derive file keys and rotate the master key, and
their requests interleave with their uses of the caches. The security module never forgets
or changes a key, and every key in a cache is the key of the module for its version.

So a chunk is decrypted under the key it was encrypted under, whatever was rotated, fetched
and cleared in between, and an encryption that starts after a rotation uses the key of that
rotation or a later one (`interleaved_encryption`).
-/

set_option autoImplicit false

namespace DistributedFileStorage.Encryption

open Async Store Nodes Relational Encoding EncryptionServiceImpl

/-! ## The calls -/

/-- A call on one instance of the encryption service. -/
inductive EncryptionCall (Instance : Type) where
  | encryptChunk (self : Instance) (chunkData : Buffer) (fileId : String) (iv : Buffer)
  | decryptChunkWithMetadata (self : Instance) (encryptedChunk : EncryptedChunk) (fileId : String)
  | generateFileKey (self : Instance) (fileId : String)
  | rotateMasterKey (self : Instance) (randomBytes : Buffer)

/-- What a call on an instance resolves to. -/
inductive EncryptionAnswer where
  | encrypted (encryptedChunk : EncryptedChunk)
  | decrypted (chunkData : Buffer)
  | fileKey (key : String)
  | rotated
  deriving DecidableEq

variable {Instance ι : Type}

/-- The program of a call. -/
def EncryptionCall.program (hmac : Buffer → Buffer → Buffer) (aes : Aes256Gcm) :
    EncryptionCall Instance → Method Instance EncryptionAnswer
  | .encryptChunk self chunkData fileId iv => do
      let encryptedChunk ← EncryptionServiceImpl.encryptChunk hmac aes self chunkData fileId iv
      pure (.encrypted encryptedChunk)
  | .decryptChunkWithMetadata self encryptedChunk fileId => do
      let chunkData ← EncryptionServiceImpl.decryptChunkWithMetadata hmac aes self encryptedChunk
        fileId
      pure (.decrypted chunkData)
  | .generateFileKey self fileId => do
      let key ← EncryptionServiceImpl.generateFileKey hmac self fileId
      pure (.fileKey key)
  | .rotateMasterKey self randomBytes => do
      EncryptionServiceImpl.rotateMasterKey self randomBytes
      pure .rotated

/-! ## The relation between moments -/

/-- Every cached key is the key of the module for its version. -/
def CachesAgree (state : KeyState Instance) : Prop :=
  ∀ owner, ∀ masterKey ∈ (state.caches owner).rows,
    state.hsm.masterKeys.find? masterKey.1 = some masterKey

/-- How the calls move a moment: keys and versions of the module only get more, and the
caches keep agreeing with it. -/
structure KeysEvolve (before after : Moment (keys Instance) ι (KeyState Instance)) : Prop where
  history : before.history <+: after.history
  masterKeys : ∀ version masterKey, before.state.hsm.masterKeys.find? version = some masterKey →
    after.state.hsm.masterKeys.find? version = some masterKey
  current : before.state.hsm.currentKeyVersion ≤ after.state.hsm.currentKeyVersion
  agree : CachesAgree before.state → CachesAgree after.state

namespace KeysEvolve

variable {first second third before : Moment (keys Instance) ι (KeyState Instance)} {task : ι}
  {call : KeyCall Instance} {outcome : Except Failure call.Result}

theorem refl (moment : Moment (keys Instance) ι (KeyState Instance)) : KeysEvolve moment moment :=
  ⟨List.prefix_refl _, fun _ _ => id, le_refl _, id⟩

theorem trans (earlier : KeysEvolve first second) (later : KeysEvolve second third) :
    KeysEvolve first third where
  history := earlier.history.trans later.history
  masterKeys version masterKey found :=
    later.masterKeys version masterKey (earlier.masterKeys version masterKey found)
  current := earlier.current.trans later.current
  agree := later.agree ∘ earlier.agree

/-- A call that changes nothing. -/
theorem of_read : KeysEvolve before (before.next task call outcome before.state) :=
  ⟨List.prefix_append _ _, fun _ _ => id, le_refl _, id⟩

theorem of_rotate (randomBytes : Buffer) :
    KeysEvolve before (before.next task call outcome
      { before.state with hsm := before.state.hsm.rotate randomBytes }) where
  history := List.prefix_append _ _
  masterKeys _ _ := Hsm.find?_rotate randomBytes
  current := Nat.le_succ _
  agree agrees owner masterKey cached :=
    Hsm.find?_rotate randomBytes (agrees owner masterKey cached)

variable [DecidableEq Instance]

/-- A cache may be replaced by one whose new keys are those of the module. -/
theorem of_setCache {owner : Instance} {cache : Table (Prod.fst : MasterKey → ℕ)}
    (known : ∀ masterKey ∈ cache.rows, masterKey ∈ (before.state.caches owner).rows ∨
      before.state.hsm.masterKeys.find? masterKey.1 = some masterKey) :
    KeysEvolve before (before.next task call outcome (before.state.setCache owner cache)) where
  history := List.prefix_append _ _
  masterKeys _ _ := id
  current := le_refl _
  agree agrees other masterKey cached := by
    by_cases same : other = owner
    · subst same
      have inside : masterKey ∈ cache.rows := by
        simpa [KeyState.setCache] using cached
      rcases known masterKey inside with old | fetched
      · exact agrees other masterKey old
      · exact fetched
    · have old : masterKey ∈ (before.state.caches other).rows := by
        simpa [KeyState.setCache, same] using cached
      exact agrees other masterKey old

end KeysEvolve

/-! ## The parts of the methods -/

variable [DecidableEq Instance]

/-- The calls next to each other. -/
abbrev keySemantics : Semantics (keys Instance) (KeyState Instance) := execKeys.semantics

variable {moment : Moment (keys Instance) ι (KeyState Instance)} {task : ι} {self : Instance}

/-- A key of the module may be cached. -/
theorem meets_cacheSet {version : ℕ} {masterKey : Buffer}
    (found : moment.state.hsm.masterKeys.find? version = some (version, masterKey)) :
    Meets keySemantics KeysEvolve task (await (.cacheSet self version masterKey)) moment
      (fun _ later => KeysEvolve moment later) (fun _ => False) := by
  refine .perform_handler ?_
  intro before evolved
  have stays : KeysEvolve before (before.next task (.cacheSet self version masterKey) (.ok ())
      (before.state.setCache self
        ((before.state.caches self).upsert (version, masterKey)))) := by
    refine .of_setCache ?_
    intro cached member
    rcases Table.mem_upsert.mp member with rfl | ⟨old, _⟩
    · exact .inr (evolved.masterKeys _ _ found)
    · exact .inl old
  exact ⟨stays, evolved.trans stays⟩

/-- The current master key is one of the module, and its version is not older than the
current one when the method started. -/
theorem meets_getMasterKey :
    Meets keySemantics KeysEvolve task (getMasterKey self) moment
      (fun masterKey later => KeysEvolve moment later ∧
        later.state.hsm.masterKeys.find? masterKey.1 = some masterKey ∧
        moment.state.hsm.currentKeyVersion ≤ masterKey.1)
      (fun _ => False) := by
  have fetched : Meets keySemantics KeysEvolve task (await .getMasterKey) moment
      (fun response later => KeysEvolve moment later ∧
        later.state.hsm.masterKeys.find? response.keyVersion =
          some (response.keyVersion, Base64.decode response.key) ∧
        moment.state.hsm.currentKeyVersion ≤ response.keyVersion)
      (fun _ => False) :=
    .perform_handler fun before evolved =>
      ⟨.of_read, evolved.trans .of_read, Hsm.find?_getMasterKey, evolved.current⟩
  refine .bind (fetched.consequence ?_ fun _ => id)
  rintro response answered ⟨toAnswered, found, newer⟩
  refine .bind ((meets_cacheSet found).consequence ?_ fun _ => id)
  intro _ cached toCached
  exact ⟨toAnswered.trans toCached, toCached.masterKeys _ _ found, newer⟩

/-- The master key of a version is the one of the module, from the cache or not. The method
rejects only when the module had no key for the version when the method started. -/
theorem meets_getMasterKeyVersion (agree : CachesAgree moment.state) (version : ℕ) :
    Meets keySemantics KeysEvolve task (getMasterKeyVersion self version) moment
      (fun masterKey later =>
        later.state.hsm.masterKeys.find? version = some (version, masterKey) ∧
          KeysEvolve moment later)
      (fun _ => moment.state.hsm.masterKeys.find? version = none) := by
  have looked : Meets keySemantics KeysEvolve task (await (.cacheGet self version)) moment
      (fun cached later => KeysEvolve moment later ∧ ∀ masterKey ∈ cached,
        later.state.hsm.masterKeys.find? version = some (version, masterKey))
      (fun _ => moment.state.hsm.masterKeys.find? version = none) := by
    refine .perform_handler fun before evolved => ⟨.of_read, evolved.trans .of_read, ?_⟩
    intro masterKey cached
    obtain ⟨row, found, rfl⟩ := Option.map_eq_some_iff.mp cached
    obtain ⟨member, same⟩ := Table.find?_eq_some_iff.mp found
    rw [← same]
    exact evolved.agree agree self row member
  refine .bind (looked.consequence ?_ fun _ => id)
  rintro cached afterLookup ⟨toLookup, known⟩
  cases cached with
  | some masterKey => exact ⟨known masterKey rfl, toLookup⟩
  | none =>
      have fetched : Meets keySemantics KeysEvolve task (await (.getMasterKeyVersion version))
          afterLookup
          (fun response later => KeysEvolve moment later ∧
            (∀ answer ∈ response, later.state.hsm.masterKeys.find? version =
              some (version, Base64.decode answer.key)) ∧
            (response = none → moment.state.hsm.masterKeys.find? version = none))
          (fun _ => moment.state.hsm.masterKeys.find? version = none) := by
        refine .perform_handler fun before evolved => ⟨.of_read, ?_, ?_, ?_⟩
        · exact toLookup.trans (evolved.trans .of_read)
        · exact fun answer => Hsm.find?_getMasterKeyVersion
        · intro missing
          have absent : before.state.hsm.masterKeys.find? version = none :=
            Option.map_eq_none_iff.mp missing
          cases present : moment.state.hsm.masterKeys.find? version with
          | none => rfl
          | some masterKey =>
              rw [(toLookup.trans evolved).masterKeys _ _ present] at absent
              cases absent
      refine .bind (fetched.consequence ?_ fun _ => id)
      rintro response answered ⟨toAnswered, found, missing⟩
      cases response with
      | none => exact missing rfl
      | some answer =>
          refine .bind ((meets_cacheSet (found answer rfl)).consequence ?_ fun _ => False.elim)
          exact fun _ later toLater =>
            ⟨toLater.masterKeys _ _ (found answer rfl), toAnswered.trans toLater⟩

/-! ## The methods -/

variable {hmac : Buffer → Buffer → Buffer} {aes : Aes256Gcm}

/-- The module has the key of the tag of a chunk, and the chunk is what the cipher gives for
the plaintext under the key that is derived from it. -/
def EncryptedWith (hmac : Buffer → Buffer → Buffer) (aes : Aes256Gcm) (hsm : Hsm)
    (chunkData : Buffer) (fileId : String) (chunk : EncryptedChunk) : Prop :=
  ∃ masterKey, hsm.masterKeys.find? chunk.keyVersion = some (chunk.keyVersion, masterKey) ∧
    aes.encrypt (deriveFileKey hmac masterKey fileId) chunk.iv chunkData =
      .ok (chunk.data, chunk.authTag)

omit [DecidableEq Instance] in
theorem EncryptedWith.mono {later : Moment (keys Instance) ι (KeyState Instance)}
    {chunkData : Buffer} {fileId : String} {chunk : EncryptedChunk}
    (encrypted : EncryptedWith hmac aes moment.state.hsm chunkData fileId chunk)
    (evolves : KeysEvolve moment later) :
    EncryptedWith hmac aes later.state.hsm chunkData fileId chunk := by
  obtain ⟨masterKey, found, cipher⟩ := encrypted
  exact ⟨masterKey, evolves.masterKeys _ _ found, cipher⟩

theorem meets_encryptChunk (chunkData : Buffer) (fileId : String) (iv : Buffer) :
    Meets keySemantics KeysEvolve task (encryptChunk hmac aes self chunkData fileId iv) moment
      (fun chunk later => EncryptedWith hmac aes later.state.hsm chunkData fileId chunk ∧
        moment.state.hsm.currentKeyVersion ≤ chunk.keyVersion)
      (fun _ => True) := by
  refine .bind (meets_getMasterKey.consequence ?_ fun _ => False.elim)
  rintro ⟨keyVersion, masterKey⟩ later ⟨_, found, newer⟩
  dsimp only
  cases cipher : aes.encrypt (deriveFileKey hmac masterKey fileId) iv chunkData with
  | ok encrypted => exact ⟨⟨masterKey, found, cipher⟩, newer⟩
  | error message => trivial

/-- **A chunk that was encrypted is decrypted to its plaintext**, and never rejected. -/
theorem meets_decryptChunkWithMetadata (agree : CachesAgree moment.state) (chunk : EncryptedChunk)
    (fileId : String) :
    Meets keySemantics KeysEvolve task (decryptChunkWithMetadata hmac aes self chunk fileId) moment
      (fun decrypted _ => ∀ chunkData,
        EncryptedWith hmac aes moment.state.hsm chunkData fileId chunk → decrypted = chunkData)
      (fun _ => ∀ chunkData,
        ¬ EncryptedWith hmac aes moment.state.hsm chunkData fileId chunk) := by
  refine .bind ((meets_getMasterKeyVersion agree chunk.keyVersion).consequence ?_ ?_)
  · rintro masterKey later ⟨found, evolves⟩
    have plain : ∀ chunkData, EncryptedWith hmac aes moment.state.hsm chunkData fileId chunk →
        aes.decrypt (deriveFileKey hmac masterKey fileId) chunk.iv chunk.data chunk.authTag =
          .ok chunkData := by
      rintro chunkData ⟨original, known, cipher⟩
      have same := (evolves.masterKeys _ _ known).symm.trans found
      obtain ⟨_, rfl⟩ := Prod.mk.inj (Option.some.inj same)
      exact aes.decrypt_encrypt cipher
    cases opened : aes.decrypt (deriveFileKey hmac masterKey fileId) chunk.iv chunk.data
        chunk.authTag with
    | ok decrypted =>
        simp only [opened]
        intro chunkData encrypted
        have opens := plain chunkData encrypted
        rw [opened] at opens
        exact Except.ok.inj opens
    | error message =>
        simp only [opened]
        intro chunkData encrypted
        have opens := plain chunkData encrypted
        rw [opened] at opens
        cases opens
  · rintro later missing chunkData ⟨masterKey, known, _⟩
    rw [missing] at known
    cases known

/-- The task has rotated the master key to a version. -/
def RotatedTo (task : ι) (version : ℕ)
    (history : List (Event (keys Instance) ι (KeyState Instance))) : Prop :=
  ∃ randomBytes before after, after.hsm.currentKeyVersion = version ∧
    ⟨task, .rotateMasterKey randomBytes, .ok version, before, after⟩ ∈ history

theorem meets_rotateMasterKey (randomBytes : Buffer) :
    Meets keySemantics KeysEvolve task (rotateMasterKey self randomBytes) moment
      (fun _ later => ∃ version, RotatedTo task version later.history ∧
        version ≤ later.state.hsm.currentKeyVersion)
      (fun _ => True) := by
  have rotated : Meets keySemantics KeysEvolve task (await (.rotateMasterKey randomBytes)) moment
      (fun version later => RotatedTo task version later.history ∧
        version ≤ later.state.hsm.currentKeyVersion) (fun _ => True) := by
    refine .perform_handler fun before evolved => ⟨.of_rotate randomBytes, ?_, le_refl _⟩
    exact ⟨randomBytes, _, _, rfl, List.mem_append_right _ (List.mem_singleton_self _)⟩
  refine .bind (rotated.consequence ?_ fun _ => id)
  rintro version afterRotation ⟨⟨bytes, before, after, same, member⟩, bound⟩
  refine .perform_handler ?_
  intro now evolved
  have stays : KeysEvolve now (now.next task (.cacheClear self) (.ok ())
      (now.state.setCache self (.empty _))) := .of_setCache (by simp)
  have reaches := evolved.trans stays
  exact ⟨stays, version, ⟨bytes, before, after, same, reaches.history.subset member⟩,
    bound.trans reaches.current⟩

/-- What holds when a call on an instance has resolved. -/
def Resolved (hmac : Buffer → Buffer → Buffer) (aes : Aes256Gcm) (task : ι) :
    EncryptionCall Instance → EncryptionAnswer → Moment (keys Instance) ι (KeyState Instance) → Prop
  | .encryptChunk _ chunkData fileId _, .encrypted chunk, moment =>
      EncryptedWith hmac aes moment.state.hsm chunkData fileId chunk
  | .rotateMasterKey _ _, .rotated, moment => ∃ version, RotatedTo task version moment.history ∧
      version ≤ moment.state.hsm.currentKeyVersion
  | _, _, _ => True

theorem meets_program (agree : CachesAgree moment.state) (call : EncryptionCall Instance) :
    Meets keySemantics KeysEvolve task (call.program hmac aes) moment (Resolved hmac aes task call)
      (fun _ => True) := by
  cases call with
  | encryptChunk self chunkData fileId iv =>
      refine .bind ((meets_encryptChunk chunkData fileId iv).consequence ?_ fun _ => id)
      exact fun chunk later encrypted => encrypted.1
  | decryptChunkWithMetadata self chunk fileId =>
      refine .bind ((meets_decryptChunkWithMetadata agree chunk fileId).consequence ?_ ?_)
      · exact fun _ _ _ => trivial
      · exact fun _ _ => trivial
  | generateFileKey self fileId =>
      exact .bind (.bind (meets_getMasterKey.consequence (fun _ _ _ => trivial) fun _ => False.elim))
  | rotateMasterKey self randomBytes => exact .bind (meets_rotateMasterKey randomBytes)

/-! ## The interleavings -/

omit [DecidableEq Instance] in
/-- The instances start with empty caches. -/
theorem cachesAgree_new (hsm : Hsm) : CachesAgree (KeyState.new hsm : KeyState Instance) :=
  fun _ _ cached => nomatch cached

section Interleavings

variable [DecidableEq ι] {calls : ι → EncryptionCall Instance} {hsm : Hsm}
  {middleTasks tasks : Pool (keys Instance) ι EncryptionAnswer}
  {middle reached : Moment (keys Instance) ι (KeyState Instance)}

/-- The runs of the calls on instances with empty caches. -/
abbrev EncryptionRuns (hmac : Buffer → Buffer → Buffer) (aes : Aes256Gcm)
    (calls : ι → EncryptionCall Instance) (hsm : Hsm) :
    Pool (keys Instance) ι EncryptionAnswer × Moment (keys Instance) ι (KeyState Instance) → Prop :=
  PoolRuns keySemantics (fun task => (calls task).program hmac aes, .start (.new hsm))

omit [DecidableEq ι] in
theorem meets_start (hmac : Buffer → Buffer → Buffer) (aes : Aes256Gcm)
    (calls : ι → EncryptionCall Instance) (hsm : Hsm) (task : ι) :
    Meets keySemantics KeysEvolve task ((calls task).program hmac aes) (.start (.new hsm))
      (Resolved hmac aes task (calls task)) (fun _ => True) :=
  meets_program (cachesAgree_new hsm) (calls task)

/-- **Every cached key is the key of the module for its version**, at every moment. -/
theorem cachesAgree_of_run (run : EncryptionRuns hmac aes calls hsm (tasks, reached)) :
    CachesAgree reached.state := by
  have evolves := (Pool.meets KeysEvolve.refl (fun _ _ _ => KeysEvolve.trans)
    (meets_start hmac aes calls hsm) run).1
  exact evolves.agree (cachesAgree_new hsm)

/-- What a call has resolved to holds at some moment of the run. -/
theorem resolved_of_run (run : EncryptionRuns hmac aes calls hsm (tasks, reached)) {task : ι}
    {answer : EncryptionAnswer} (settled : tasks task = .done (.ok answer)) :
    ∃ moment, KeysEvolve moment reached ∧ Resolved hmac aes task (calls task) answer moment := by
  obtain ⟨moment, _, evolves, ends⟩ := Pool.settles KeysEvolve.refl
    (fun _ _ _ => KeysEvolve.trans) (meets_start hmac aes calls hsm) run settled
  exact ⟨moment, evolves, ends⟩

/-- A call that is known at some moment of a run to meet postconditions ends as they say. -/
theorem ends_of_run (early : EncryptionRuns hmac aes calls hsm (middleTasks, middle))
    (late : PoolRuns keySemantics (middleTasks, middle) (tasks, reached)) {task : ι}
    {resolved : EncryptionAnswer → Moment (keys Instance) ι (KeyState Instance) → Prop}
    {rejected : Moment (keys Instance) ι (KeyState Instance) → Prop}
    (meetsLater : Meets keySemantics KeysEvolve task (middleTasks task) middle resolved rejected)
    {outcome : Except Failure EncryptionAnswer} (settled : tasks task = .done outcome) :
    ∃ moment, Ends (I := keys Instance) resolved rejected outcome moment := by
  obtain ⟨moment, _, _, ends⟩ := Pool.settles_later KeysEvolve.refl
    (fun _ _ _ => KeysEvolve.trans) (meets_start hmac aes calls hsm) early meetsLater late settled
  exact ⟨moment, ends⟩

/-- A decryption that starts after an encryption has resolved settles to the plaintext, if it
settles. -/
theorem decryption_settles (early : EncryptionRuns hmac aes calls hsm (middleTasks, middle))
    (late : PoolRuns keySemantics (middleTasks, middle) (tasks, reached))
    {encryption decryption : ι} {encryptor decryptor : Instance} {chunkData iv : Buffer}
    {fileId : String} {chunk : EncryptedChunk}
    (encrypts : calls encryption = .encryptChunk encryptor chunkData fileId iv)
    (encrypted : middleTasks encryption = .done (.ok (.encrypted chunk)))
    (decrypts : calls decryption = .decryptChunkWithMetadata decryptor chunk fileId)
    (unstarted : middleTasks decryption = (calls decryption).program hmac aes)
    {outcome : Except Failure EncryptionAnswer} (settled : tasks decryption = .done outcome) :
    outcome = .ok (.decrypted chunkData) := by
  obtain ⟨moment, evolves, ends⟩ := resolved_of_run early encrypted
  rw [encrypts] at ends
  have known := EncryptedWith.mono ends evolves
  have meetsLater : Meets keySemantics KeysEvolve decryption (middleTasks decryption) middle
      (fun answer _ => answer = .decrypted chunkData) (fun _ => False) := by
    rw [unstarted, decrypts]
    have agree := cachesAgree_of_run early
    refine .bind ((meets_decryptChunkWithMetadata agree chunk fileId).consequence ?_ ?_)
    · exact fun decrypted later plain =>
        congrArg EncryptionAnswer.decrypted (plain chunkData known)
    · exact fun later rejected => rejected chunkData known
  obtain ⟨_, ends⟩ := ends_of_run early late meetsLater settled
  cases outcome with
  | ok answer => exact congrArg Except.ok ends
  | error failure => cases ends

/-- An encryption that starts after a rotation has resolved is tagged with the version of
that rotation or a later one. -/
theorem encryption_newer (early : EncryptionRuns hmac aes calls hsm (middleTasks, middle))
    (late : PoolRuns keySemantics (middleTasks, middle) (tasks, reached))
    {rotation encryption : ι} {rotator encryptor : Instance} {randomBytes chunkData iv : Buffer}
    {fileId : String} {chunk : EncryptedChunk}
    (rotates : calls rotation = .rotateMasterKey rotator randomBytes)
    (rotated : middleTasks rotation = .done (.ok .rotated))
    (encrypts : calls encryption = .encryptChunk encryptor chunkData fileId iv)
    (unstarted : middleTasks encryption = (calls encryption).program hmac aes)
    (encrypted : tasks encryption = .done (.ok (.encrypted chunk))) :
    ∃ version, RotatedTo rotation version middle.history ∧ version ≤ chunk.keyVersion := by
  obtain ⟨moment, evolves, ends⟩ := resolved_of_run early rotated
  rw [rotates] at ends
  obtain ⟨version, ⟨bytes, before, after, same, member⟩, bound⟩ := ends
  have meetsLater : Meets keySemantics KeysEvolve encryption (middleTasks encryption) middle
      (fun answer _ => ∀ chunk, answer = .encrypted chunk →
        middle.state.hsm.currentKeyVersion ≤ chunk.keyVersion) (fun _ => True) := by
    rw [unstarted, encrypts]
    refine .bind ((meets_encryptChunk chunkData fileId iv).consequence ?_ fun _ => id)
    rintro answer later ⟨_, newer⟩ _ ⟨⟩
    exact newer
  obtain ⟨_, newer⟩ := ends_of_run early late meetsLater encrypted
  refine ⟨version, ⟨bytes, before, after, same, evolves.history.subset member⟩, ?_⟩
  exact (bound.trans evolves.current).trans (newer chunk rfl)

/-- **Encryption, decryption and rotation next to each other.** Take any run, and any moment
`middle` of it.

* Every cached key is the key of the security module for its version.
* A chunk to which an encryption has resolved by `middle` is decrypted to its plaintext by
  every decryption that starts after `middle`, on any instance: there is no other way for it
  to settle, and it settles when it goes on.
* An encryption that starts after `middle` is tagged with the version of any rotation that
  has resolved by `middle`, or a later one. -/
theorem interleaved_encryption (hmac : Buffer → Buffer → Buffer) (aes : Aes256Gcm)
    (calls : ι → EncryptionCall Instance) (hsm : Hsm)
    {middleTasks tasks : Pool (keys Instance) ι EncryptionAnswer}
    {middle reached : Moment (keys Instance) ι (KeyState Instance)}
    (early : EncryptionRuns hmac aes calls hsm (middleTasks, middle))
    (late : PoolRuns keySemantics (middleTasks, middle) (tasks, reached)) :
    CachesAgree reached.state ∧
      (∀ encryption decryption encryptor decryptor chunkData fileId iv chunk,
        calls encryption = .encryptChunk encryptor chunkData fileId iv →
        middleTasks encryption = .done (.ok (.encrypted chunk)) →
        calls decryption = .decryptChunkWithMetadata decryptor chunk fileId →
        middleTasks decryption = (calls decryption).program hmac aes →
          (∀ outcome, tasks decryption = .done outcome → outcome = .ok (.decrypted chunkData)) ∧
            ∃ later, PoolRuns keySemantics (tasks, reached) later ∧
              later.1 decryption = .done (.ok (.decrypted chunkData))) ∧
      ∀ rotation encryption rotator encryptor randomBytes chunkData fileId iv chunk,
        calls rotation = .rotateMasterKey rotator randomBytes →
        middleTasks rotation = .done (.ok .rotated) →
        calls encryption = .encryptChunk encryptor chunkData fileId iv →
        middleTasks encryption = (calls encryption).program hmac aes →
        tasks encryption = .done (.ok (.encrypted chunk)) →
          ∃ version, RotatedTo rotation version middle.history ∧ version ≤ chunk.keyVersion := by
  refine ⟨cachesAgree_of_run (early.trans late), ?_, ?_⟩
  · intro encryption decryption encryptor decryptor chunkData fileId iv chunk encrypts encrypted
      decrypts unstarted
    refine ⟨fun outcome => decryption_settles early late encrypts encrypted decrypts unstarted, ?_⟩
    have total : ∀ call (state : KeyState Instance), ∃ outcome after,
        keySemantics call state outcome after := fun call state => ⟨_, _, rfl⟩
    obtain ⟨last, now, outcome, run, settled⟩ :=
      Pool.exists_settles total tasks reached decryption
    have plain := decryption_settles early (late.trans run) encrypts encrypted decrypts unstarted
      settled
    exact ⟨(last, now), run, plain ▸ settled⟩
  · intro rotation encryption rotator encryptor randomBytes chunkData fileId iv chunk rotates
      rotated encrypts unstarted encrypted
    exact encryption_newer early late rotates rotated encrypts unstarted encrypted

end Interleavings

/-! ## Two instances and a rotation -/

/-- A keyed hash given by a table of keys, data and values. Elsewhere it gives nothing. -/
def hmacTable (table : List (Buffer × Buffer × Buffer)) (key data : Buffer) : Buffer :=
  ((table.find? fun entry => entry.1 = key ∧ entry.2.1 = data).map fun entry => entry.2.2).getD []

/-- An encryption under a key and an initialization vector. -/
structure CipherEntry where
  key : Buffer
  iv : Buffer
  plaintext : Buffer
  data : Buffer
  authTag : Buffer
  deriving DecidableEq

/-- A cipher given by a table that decides the plaintext. It throws elsewhere. -/
def cipherTable (table : List CipherEntry)
    (decided : ∀ first ∈ table, ∀ second ∈ table,
      first.key = second.key → first.iv = second.iv → first.data = second.data →
        first.authTag = second.authTag → first.plaintext = second.plaintext) : Aes256Gcm where
  encrypt key iv plaintext :=
    match table.find? fun entry => entry.key = key ∧ entry.iv = iv ∧ entry.plaintext = plaintext with
    | some entry => .ok (entry.data, entry.authTag)
    | none => .error "Invalid key length"
  decrypt key iv data authTag :=
    match table.find? fun entry =>
      entry.key = key ∧ entry.iv = iv ∧ entry.data = data ∧ entry.authTag = authTag with
    | some entry => .ok entry.plaintext
    | none => .error "Unsupported state or unable to authenticate data"
  decrypt_encrypt := by
    intro key iv plaintext data authTag encrypted
    cases found : table.find? fun entry =>
        entry.key = key ∧ entry.iv = iv ∧ entry.plaintext = plaintext with
    | none =>
        rw [found] at encrypted
        cases encrypted
    | some entry =>
        rw [found] at encrypted
        cases encrypted
        have member := List.mem_of_find?_eq_some found
        have inputs := List.find?_some found
        simp only [Bool.decide_and, Bool.and_eq_true, decide_eq_true_eq] at inputs
        obtain ⟨rfl, rfl, rfl⟩ := inputs
        cases opened : table.find? fun other => other.key = entry.key ∧ other.iv = entry.iv ∧
            other.data = entry.data ∧ other.authTag = entry.authTag with
        | none =>
            have missing := List.find?_eq_none.mp opened entry member
            simp at missing
        | some other =>
            have outputs := List.find?_some opened
            simp only [Bool.decide_and, Bool.and_eq_true, decide_eq_true_eq] at outputs
            obtain ⟨key, iv, data, authTag⟩ := outputs
            exact congrArg Except.ok (decided other (List.mem_of_find?_eq_some opened) entry member
              key iv data authTag)

/-- HMAC-SHA256 on the derivation of two keys for the file `notes`. -/
def knownHmac : Buffer → Buffer → Buffer :=
  let salt := utf8 "distributed-file-storage-salt"
  let info := utf8 "file:notes" ++ [1]
  let first : Buffer :=
    [62, 1, 156, 166, 169, 17, 47, 76, 75, 204, 202, 138, 11, 221, 72, 0, 202, 183, 54, 46, 130, 111,
      121, 113, 127, 45, 17, 181, 157, 141, 6, 226]
  let second : Buffer :=
    [144, 86, 50, 220, 150, 110, 13, 194, 64, 206, 9, 231, 129, 253, 12, 104, 174, 0, 108, 114, 99,
      136, 63, 226, 55, 209, 203, 178, 197, 180, 82, 253]
  hmacTable
    [(salt, List.replicate 32 1, first),
      (first, info,
        [195, 48, 88, 172, 169, 163, 100, 227, 4, 75, 164, 254, 62, 53, 102, 118, 144, 29, 31, 246,
          110, 186, 133, 185, 167, 177, 19, 67, 219, 63, 150, 208]),
      (salt, List.replicate 32 2, second),
      (second, info,
        [24, 46, 193, 196, 60, 107, 142, 38, 129, 167, 53, 251, 224, 178, 243, 3, 80, 110, 210, 160,
          142, 178, 145, 170, 206, 178, 64, 238, 198, 199, 160, 34])]

/-- What AES-256-GCM makes of the byte 7 under the first key. -/
def firstChunk : EncryptedChunk where
  data := [75]
  iv := List.replicate 12 0
  authTag := [152, 253, 217, 55, 55, 169, 87, 105, 58, 144, 43, 252, 200, 180, 102, 169]
  keyVersion := 1

/-- What AES-256-GCM makes of the byte 7 under the second key. -/
def secondChunk : EncryptedChunk where
  data := [222]
  iv := List.replicate 12 0
  authTag := [166, 80, 200, 102, 229, 44, 241, 71, 53, 107, 101, 143, 177, 195, 11, 232]
  keyVersion := 2

/-- AES-256-GCM on these two encryptions. -/
def knownCipher : Aes256Gcm :=
  let entry (masterKey : Buffer) (chunk : EncryptedChunk) : CipherEntry :=
    { key := deriveFileKey knownHmac masterKey "notes", iv := chunk.iv, plaintext := [7],
      data := chunk.data, authTag := chunk.authTag }
  cipherTable [entry (List.replicate 32 1) firstChunk, entry (List.replicate 32 2) secondChunk]
    (by decide)

/-- One instance encrypts before and after the other one rotates the key, and the other one
decrypts the first chunk. -/
def rotatedCalls : ℕ → EncryptionCall Bool
  | 0 => .encryptChunk false [7] "notes" (List.replicate 12 0)
  | 1 => .rotateMasterKey true (List.replicate 32 2)
  | 2 => .decryptChunkWithMetadata true firstChunk "notes"
  | _ => .encryptChunk false [7] "notes" (List.replicate 12 0)

/-- The rotation happens between the answer of the module and its arrival at the cache. -/
def rotatedRun : Pool (keys Bool) ℕ EncryptionAnswer × Moment (keys Bool) ℕ (KeyState Bool) :=
  Pool.runSchedule execKeys [0, 1, 0, 1]
    (fun task => (rotatedCalls task).program knownHmac knownCipher,
      .start (.new (.new (List.replicate 32 1))))

/-- The second encryption and the decryption take turns. -/
def decryptedRun : Pool (keys Bool) ℕ EncryptionAnswer × Moment (keys Bool) ℕ (KeyState Bool) :=
  Pool.runSchedule execKeys [3, 2, 2, 3, 2] rotatedRun

/-- The first chunk is decrypted after the rotation, and the second one is newer. -/
theorem interleaved_encryption_rotated :
    CachesAgree decryptedRun.2.state ∧
      (∃ outcome, decryptedRun.1 2 = .done outcome ∧ outcome = .ok (.decrypted [7])) ∧
      ∃ version, RotatedTo 1 version rotatedRun.2.history ∧ version ≤ secondChunk.keyVersion := by
  have early : EncryptionRuns knownHmac knownCipher rotatedCalls (.new (List.replicate 32 1))
      rotatedRun := Pool.runs_runSchedule (fun _ _ => rfl) _ _
  have late : PoolRuns keySemantics rotatedRun decryptedRun :=
    Pool.runs_runSchedule (fun _ _ => rfl) _ _
  have encryption := interleaved_encryption knownHmac knownCipher rotatedCalls
    (.new (List.replicate 32 1)) early late
  refine ⟨encryption.1, ⟨_, rfl, ?_⟩, ?_⟩
  · exact (encryption.2.1 0 2 _ _ _ _ _ firstChunk rfl rfl rfl rfl).1 _ rfl
  · exact encryption.2.2 1 3 _ _ _ _ _ _ secondChunk rfl rfl rfl rfl rfl

end DistributedFileStorage.Encryption
