import DistributedFileStorage.Access.Coherence

/-!
# Earlier checks and later answers

A check keeps its answer under a key that is a string, and user identifiers come from a header
without a check. Two queries can share a key: user `a:b` and file `c`, or user `a` and file `b:c`.
An earlier check then answers for a later one.

Two queries that share a key are not both for a file, whose identifier has no colon. So the answer
of a check is independent of the earlier checks exactly when the store refuses the other ones that
share its key (`undisturbed_iff`).
-/

set_option autoImplicit false

namespace DistributedFileStorage.Access

open Async Store Services Caching Encoding Program

/-- Check one query after the other, whatever comes of it. -/
def checkAll (queries : List Query) : Program access Unit :=
  forEach (fun query => attempt (query.check >>= fun _ => pure ())) queries

variable {query : Query} {queries : List Query} {before after : AccessState}
  {outcome : Except Failure Bool}

@[simp] theorem runs_checkAll_nil :
    Runs timed (checkAll []) before (.ok ()) after ↔ after = before := by
  simp [checkAll, forEach]

@[simp] theorem runs_checkAll_cons :
    Runs timed (checkAll (query :: queries)) before (.ok ()) after ↔
      ∃ outcome middle, Answers before query.userId query.fileId query.operation outcome middle ∧
        Runs timed (checkAll queries) middle (.ok ()) after := by
  have checks : ∀ settled middle,
      Runs timed (attempt (query.check >>= fun _ => (pure () : Program access Unit)))
        before settled middle ↔ settled = .ok () ∧
          ∃ outcome, Answers before query.userId query.fileId query.operation outcome middle := by
    intro settled middle
    unfold attempt
    rw [Runs.tryCatch_iff]
    constructor
    · rintro (⟨_, run, rfl⟩ | ⟨failure, _, run, ended⟩)
      · obtain ⟨outcome, _, check⟩ := Runs.of_bind_pure run
        exact ⟨rfl, outcome, runs_checkPermission_iff.mp check⟩
      · obtain ⟨rfl, rfl⟩ := Runs.pure_iff.mp ended
        obtain ⟨outcome, _, check⟩ := Runs.of_bind_pure run
        exact ⟨rfl, outcome, runs_checkPermission_iff.mp check⟩
    · rintro ⟨rfl, outcome, answers⟩
      have check : Runs timed query.check before outcome middle :=
        runs_checkPermission_iff.mpr answers
      cases outcome with
      | ok answer => exact .inl ⟨(), Runs.bind_ok check (Runs.pure_iff.mpr ⟨rfl, rfl⟩), rfl⟩
      | error failure =>
          exact .inr ⟨failure, middle, Runs.bind_error check, Runs.pure_iff.mpr ⟨rfl, rfl⟩⟩
  unfold checkAll
  rw [forEach, Runs.bind_iff]
  simp only [checks]
  constructor
  · rintro (⟨_, middle, ⟨_, outcome, answers⟩, rest⟩ | ⟨failure, ⟨same, _⟩, _⟩)
    · exact ⟨outcome, middle, answers, rest⟩
    · cases same
  · rintro ⟨outcome, middle, answers, rest⟩
    exact .inl ⟨(), middle, ⟨trivial, outcome, answers⟩, rest⟩

/-! ## Queries that share a key -/

/-- A text with a colon is no identifier of a file. -/
theorem colon_not_mem_of_parse {text : String} {id : FileId} (spells : Uuid.parse text = some id) :
    ':' ∉ text.toList := by
  intro colon
  have character := List.all_eq_true.mp (Uuid.all_of_parse spells) ':' colon
  revert character
  decide

/-- The store does not answer two queries that share a key. -/
theorem answer_ne_of_key_eq {other : Query} {db : Database} {answer : Bool}
    (different : other ≠ query) (same : other.key = query.key)
    (given : other.answer db = .ok answer) : query.answer db ≠ .ok answer := by
  intro answered
  obtain ⟨_, spells, _⟩ := eq_of_evaluate given
  obtain ⟨_, spellsToo, _⟩ := eq_of_evaluate answered
  exact different (Query.eq_of_key_eq same (colon_not_mem_of_parse spells)
    (colon_not_mem_of_parse spellsToo))

/-! ## Earlier checks that agree -/

/-- Every live answer under the key of a query is the one of the store. -/
def Faithful (query : Query) (state : AccessState) : Prop :=
  state.permissionCache.Sound (fun key answer => key = query.key →
    query.answer state.world.store = .ok answer) state.now

theorem Faithful.answers (faithful : Faithful query before)
    (answers : Answers before query.userId query.fileId query.operation outcome after) :
    outcome = query.answer before.world.store := by
  cases answers with
  | fromCache later live =>
      exact (faithful query.key _ (TimedCache.lookup_of_later later live) rfl).symm
  | fromStore first later missed given => exact given.symm
  | refused first later missed given => exact given.symm

theorem Faithful.check {other : Query} (faithful : Faithful query before)
    (agree : other.key = query.key → ∀ answer, other.answer before.world.store = .ok answer →
      query.answer before.world.store = .ok answer)
    (answers : Answers before other.userId other.fileId other.operation outcome after) :
    Faithful query after := by
  cases answers with
  | fromCache later live => exact TimedCache.Sound.elapse faithful later
  | fromStore first later missed given =>
      refine TimedCache.Sound.put (TimedCache.Sound.elapse faithful (le_trans first later)) ?_
      exact fun same => agree same _ given
  | refused first later missed given =>
      exact TimedCache.Sound.elapse faithful (le_trans first later)

theorem Faithful.checkAll {world : World} (inWorld : before.world = world)
    (faithful : Faithful query before)
    (agree : ∀ other ∈ queries, other.key = query.key → ∀ answer,
      other.answer world.store = .ok answer → query.answer world.store = .ok answer)
    (run : Runs timed (checkAll queries) before (.ok ()) after) :
    Faithful query after ∧ after.world = world := by
  induction queries generalizing before with
  | nil =>
      obtain rfl := runs_checkAll_nil.mp run
      exact ⟨faithful, inWorld⟩
  | cons first rest ih =>
      obtain ⟨outcome, middle, answers, later⟩ := runs_checkAll_cons.mp run
      refine ih (answers.world.trans inWorld) (faithful.check ?_ answers)
        (fun other member => agree other (List.mem_cons_of_mem _ member)) later
      rw [inWorld]
      exact agree first List.mem_cons_self

/-! ## An earlier check that does not -/

/-- A check can answer without time passing. -/
theorem exists_answers_now (before : AccessState) (query : Query) :
    ∃ outcome after, Answers before query.userId query.fileId query.operation outcome after ∧
      after.now = before.now := by
  cases live : before.permissionCache.lookup before.now query.key with
  | some answer => exact ⟨_, _, .fromCache (le_refl _) live, rfl⟩
  | none =>
      cases given : query.answer before.world.store with
      | ok answer => exact ⟨_, _, .fromStore (le_refl _) (le_refl _) live given, rfl⟩
      | error failure => exact ⟨_, _, .refused (le_refl _) (le_refl _) live given, rfl⟩

/-- A live answer stays when no time passes. -/
theorem Answers.keeps_live {key : String} {kept : Bool}
    (answers : Answers before query.userId query.fileId query.operation outcome after)
    (now : after.now = before.now)
    (live : before.permissionCache.lookup before.now key = some kept) :
    after.permissionCache.lookup after.now key = some kept := by
  rw [now]
  cases answers with
  | fromCache later _ => exact live
  | refused first later missed _ => exact live
  | @fromStore answer looked last first later missed =>
      have atOnce : looked = before.now := le_antisymm (later.trans_eq now) first
      have different : key ≠ query.key := by
        rintro rfl
        rw [atOnce] at missed
        exact absurd (missed.symm.trans live) (by simp)
      exact (TimedCache.lookup_put_of_ne different).trans live

/-- Further checks can keep a live answer. -/
theorem exists_checkAll_live {key : String} {kept : Bool} (queries : List Query)
    (live : before.permissionCache.lookup before.now key = some kept) :
    ∃ after, Runs timed (checkAll queries) before (.ok ()) after ∧
      after.permissionCache.lookup after.now key = some kept := by
  induction queries generalizing before with
  | nil => exact ⟨before, runs_checkAll_nil.mpr rfl, live⟩
  | cons query rest ih =>
      obtain ⟨answer, middle, answers, now⟩ := exists_answers_now before query
      obtain ⟨after, run, still⟩ := ih (answers.keeps_live now live)
      exact ⟨after, runs_checkAll_cons.mpr ⟨answer, middle, answers, run⟩, still⟩

/-- Once the entries for its key have expired, a check leaves the answer of the store. -/
theorem exists_answers_expired (before : AccessState) (query : Query) {answer : Bool}
    (given : query.answer before.world.store = .ok answer) :
    ∃ after, Answers before query.userId query.fileId query.operation (.ok answer) after ∧
      after.permissionCache.lookup after.now query.key = some answer := by
  obtain ⟨now, later, expired⟩ : ∃ now, before.now ≤ now ∧
      before.permissionCache.lookup now query.key = none := by
    cases held : before.permissionCache query.key with
    | none => exact ⟨before.now, le_refl _, by simp [TimedCache.lookup, held]⟩
    | some entry =>
        refine ⟨max before.now entry.expiresAt, le_max_left _ _, ?_⟩
        simp [TimedCache.lookup, held]
  refine ⟨_, .fromStore later (le_refl _) expired given, ?_⟩
  refine TimedCache.lookup_put_self.trans (if_pos ?_)
  exact lt_add_of_pos_right now (by decide)

/-- An earlier check can leave its answer, whatever is checked before and after it. -/
theorem exists_checkAll_left {world : World} {other : Query} {answer : Bool}
    (inWorld : before.world = world) (given : other.answer world.store = .ok answer)
    (member : other ∈ queries) :
    ∃ after, Runs timed (checkAll queries) before (.ok ()) after ∧
      after.permissionCache.lookup after.now other.key = some answer := by
  induction queries generalizing before with
  | nil => cases member
  | cons first rest ih =>
      rcases List.mem_cons.mp member with rfl | later
      · obtain ⟨middle, answers, live⟩ := exists_answers_expired before other (inWorld ▸ given)
        obtain ⟨after, run, still⟩ := exists_checkAll_live rest live
        exact ⟨after, runs_checkAll_cons.mpr ⟨_, middle, answers, run⟩, still⟩
      · obtain ⟨outcome, middle, answers, _⟩ := exists_answers_now before first
        obtain ⟨after, run, live⟩ := ih (answers.world.trans inWorld) later
        exact ⟨after, runs_checkAll_cons.mpr ⟨outcome, middle, answers, run⟩, live⟩

/-- **A later check can get the answer of an earlier one with its key.** -/
theorem exists_disturbed {world : World} {now : Time} {other : Query} {answer : Bool}
    (given : other.answer world.store = .ok answer) (member : other ∈ queries)
    (same : other.key = query.key) :
    ∃ middle after, Runs timed (checkAll queries) (.fresh world now) (.ok ()) middle ∧
      Runs timed query.check middle (.ok answer) after := by
  obtain ⟨middle, earlier, live⟩ : ∃ middle,
      Runs timed (checkAll queries) (.fresh world now) (.ok ()) middle ∧
        middle.permissionCache.lookup middle.now other.key = some answer :=
    exists_checkAll_left rfl given member
  rw [same] at live
  exact ⟨middle, _, earlier,
    runs_checkPermission_iff.mpr (.fromCache (le_refl middle.now) live)⟩

/-- **The answer of a check is independent of the earlier checks if and only if the store refuses
the other ones with its key.** -/
theorem undisturbed_iff (world : World) (now : Time) (queries : List Query) (query : Query) :
    (∀ middle outcome after, Runs timed (checkAll queries) (.fresh world now) (.ok ()) middle →
      Runs timed query.check middle outcome after →
        ∀ freshAt freshOutcome freshAfter,
          Runs timed query.check (.fresh world freshAt) freshOutcome freshAfter →
            outcome = freshOutcome) ↔
      ∀ other ∈ queries, other ≠ query → other.key = query.key →
        ∃ failure, other.answer world.store = .error failure := by
  have freshFaithful : ∀ start, Faithful query (.fresh world start) :=
    fun _ => TimedCache.Sound.empty
  constructor
  · intro undisturbed other member different same
    cases given : other.answer world.store with
    | error failure => exact ⟨failure, rfl⟩
    | ok answer =>
        obtain ⟨middle, after, earlier, check⟩ := exists_disturbed given member same
        have fresh := runs_timed query.check (.fresh world now)
        have equal := undisturbed middle _ after earlier check now _ _ fresh
        have stored := (freshFaithful now).answers (runs_checkPermission_iff.mp fresh)
        exact absurd (stored.symm.trans equal.symm) (answer_ne_of_key_eq different same given)
  · intro refused middle outcome after earlier check freshAt freshOutcome freshAfter fresh
    have agree : ∀ other ∈ queries, other.key = query.key → ∀ answer,
        other.answer world.store = .ok answer → query.answer world.store = .ok answer := by
      intro other member same answer given
      by_cases different : other = query
      · exact different ▸ given
      · obtain ⟨failure, none⟩ := refused other member different same
        cases none.symm.trans given
    obtain ⟨faithful, inWorld⟩ := (freshFaithful now).checkAll rfl agree earlier
    have later := faithful.answers (runs_checkPermission_iff.mp check)
    rw [inWorld] at later
    exact later.trans ((freshFaithful freshAt).answers (runs_checkPermission_iff.mp fresh)).symm

/-- A user whose identifier contains a colon has a file, and its answer is given to another user. -/
theorem disturbed_shared_key :
    ¬ ∀ (world : World) (now : Time) (queries : List Query) (query : Query), query ∉ queries →
      ∀ middle outcome after, Runs timed (checkAll queries) (.fresh world now) (.ok ()) middle →
        Runs timed query.check middle outcome after →
          ∀ freshAt freshOutcome freshAfter,
            Runs timed query.check (.fresh world freshAt) freshOutcome freshAfter →
              outcome = freshOutcome := by
  intro claim
  let owned := World.ofStore (.ofFile
    { fileId := notes, fileName := "notes", ownerId := "a:b", currentVersion := 0, totalSize := 0,
      createdAt := 0, updatedAt := 0, retentionDays := 30 })
  let asked : Query := ⟨"a:b", notes.text, .read⟩
  let query : Query := ⟨"a", "b:" ++ notes.text, .read⟩
  have earlier := runs_timed (checkAll [asked]) (.fresh owned 0)
  have resolved : ((checkAll [asked]).run accessExec (.fresh owned 0)).1 = .ok () := by
    decide +kernel
  rw [resolved] at earlier
  have check := runs_timed query.check ((checkAll [asked]).run accessExec (.fresh owned 0)).2
  have fresh := runs_timed query.check (.fresh owned 0)
  have same := claim owned 0 [asked] query (by decide) _ _ _ earlier check 0 _ _ fresh
  exact absurd same (by decide +kernel)

end DistributedFileStorage.Access
