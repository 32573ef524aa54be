import ChunkDispatch.Proofs.Attempt
import ChunkDispatch.Proofs.Unsigned
import ChunkDispatch.Settings
import Mathlib.Data.List.Forall2

/-!
# What an environment gives

A variable which is set *gives* what its text is written for, without the blanks around it, and a
variable which is not set gives the standard.  An environment gives a configuration if its variables
give what is in it.  The variables are *checked* in a fixed order, and a check *fails* with a fault.
What is read from an environment is the configuration it gives, and where it gives none, reading
fails with the fault of the first check which fails.
-/

namespace ChunkDispatch

open Attempt Text Integer

/-! ### Names of retentions -/

theorem toLower_eq_iff {c d : Char} (hd : d.isLower = true) :
  c.toLower = d ↔ c = d ∨ c = d.toUpper
  := by
  have hsmall : 'a'.val ≤ d.val ∧ d.val ≤ 'z'.val :=
    (Bool.and_eq_true_iff.mp hd).imp of_decide_eq_true of_decide_eq_true
  delta Char.toLower Char.toUpper
  rw [dif_pos hsmall]
  simp only [Char.reduceVal, UInt32.le_iff_toNat_le, UInt32.reduceToNat, ge_iff_le] at hsmall ⊢
  split <;> simp only [Char.ext_iff, ← UInt32.toNat_inj, UInt32.toNat_add, UInt32.toNat_sub,
    UInt32.reduceToNat] <;> omega

/-- A text in small letters is the same up to capital letters. -/
theorem map_toLower_eq_iff {cs ds : List Char} (hds : ∀ d ∈ ds, d.isLower = true) :
  cs.map Char.toLower = ds ↔ List.Forall₂ (fun c d => c = d ∨ c = d.toUpper) cs ds
  := by
  induction ds generalizing cs with
  | nil => rw [List.map_eq_nil_iff, List.forall₂_nil_right_iff]
  | cons d ds ih =>
    obtain ⟨hd, hds⟩ := List.forall_mem_cons.mp hds
    rw [List.map_eq_cons_iff, List.forall₂_cons_right_iff]
    simp only [toLower_eq_iff hd, ih hds]
    constructor
    · rintro ⟨c, cs, rfl, hc, hcs⟩
      exact ⟨c, cs, hc, hcs, rfl⟩
    · rintro ⟨c, cs, hc, hcs, rfl⟩
      exact ⟨c, cs, rfl, hc, hcs⟩

namespace Retention

/-- The text is the name of the retention, each letter of it small or capital. -/
def IsWritten (r : Retention) (cs : List Char) : Prop :=
  List.Forall₂ (fun c d => c = d ∨ c = d.toUpper) cs r.name.toList

theorem isWritten_iff {r : Retention} {cs : List Char} :
  r.IsWritten cs ↔ r.name = lowercase (String.ofList cs)
  := by
  have hsmall : r.name.toList.all Char.isLower = true := by
    cases r <;> rfl
  rw [IsWritten, ← map_toLower_eq_iff (List.all_eq_true.mp hsmall), lowercase,
    ← String.toList_inj, String.toList_ofList, String.toList_ofList]
  exact eq_comm

theorem parse?_eq_some_iff {r : Retention} {cs : List Char} :
  parse? (String.ofList cs) = some r ↔ r.IsWritten cs
  := by
  rw [isWritten_iff, parse?]
  constructor
  · intro h
    simpa using List.find?_some h
  · intro h
    rw [← h]
    cases r <;> decide +kernel

theorem parse?_eq_none_iff {cs : List Char} :
  parse? (String.ofList cs) = none ↔ ∀ r : Retention, ¬ r.IsWritten cs
  := by
  simp only [← parse?_eq_some_iff, Option.eq_none_iff_forall_ne_some, ne_eq]

end Retention

namespace Configuration

/-! ### Given values -/

/-- The variable gives the value: what its text is written for, or the standard if it is not set. -/
inductive Gives {α : Type} (env : Environment) (name : String) (standard : α)
    (IsWritten : List Char → α → Prop) : α → Prop
  | unset (h : env name = none) : Gives env name standard IsWritten standard
  | set {s : String} {core : List Char} {a : α} (h : env name = some s)
      (hcore : IsTrimmed core s.toList) (ha : IsWritten core a) :
      Gives env name standard IsWritten a

/-- The variable gives the number. -/
def GivesNumber (env : Environment) (name : String) (standard : Nat) : Nat → Prop :=
  Gives env name standard (fun cs n => IsNumeral (afterPlus cs) n ∧ n < 2 ^ 64)

/-- The environment gives the retention. -/
def GivesRetention (env : Environment) : Retention → Prop :=
  Gives env "TRACKER_RETENTION" Settings.standard.retention (fun cs r => r.IsWritten cs)

/-- The environment gives the configuration. -/
structure Given (env : Environment) (config : Configuration) : Prop where
  partitions : GivesNumber env "TRACKER_PARTITIONS" Settings.standard.partitions
    config.settings.partitions
  one_le_partitions : 1 ≤ config.settings.partitions
  databaseUrl : env "DATABASE_URL" = some config.databaseUrl
  retention : GivesRetention env config.settings.retention
  maxEnqueued : GivesNumber env "TRACKER_MAX_ENQUEUED_PER_SINK" Settings.standard.maxEnqueued
    config.settings.maxEnqueued
  directMark : GivesNumber env "TRACKER_TRANSITION_TO_DIRECT_MARK" Settings.standard.directMark
    config.settings.directMark
  telemetryEndpoint : config.telemetryEndpoint = env "OTEL_ENDPOINT"
  logLevel : config.logLevel = (env "LOG_LEVEL").getD "info"

/-! ### Checks -/

/-- What is checked about an environment. -/
inductive Check
  | number (name : String)
  | somePartition
  | required (name : String)
  | retention

/-- The checks in their order. -/
def Check.inOrder : List Check :=
  [.number "TRACKER_PARTITIONS", .somePartition, .required "DATABASE_URL", .retention,
    .number "TRACKER_MAX_ENQUEUED_PER_SINK", .number "TRACKER_TRANSITION_TO_DIRECT_MARK"]

/-- The check fails with the fault. -/
inductive Check.Fails (env : Environment) : Check → SettingsFault → Prop
  | number {name s : String} {core : List Char} {fault : Fault} (h : env name = some s)
      (hcore : IsTrimmed core s.toList) (hfault : HasFault (2 ^ 64 - 1) core fault) :
      Fails env (.number name) (.badNumber name fault)
  | somePartition (h : GivesNumber env "TRACKER_PARTITIONS" Settings.standard.partitions 0) :
      Fails env .somePartition .noPartition
  | required {name : String} (h : env name = none) : Fails env (.required name) (.missing name)
  | retention {s : String} {core : List Char} (h : env "TRACKER_RETENTION" = some s)
      (hcore : IsTrimmed core s.toList) (hnone : ∀ r : Retention, ¬ r.IsWritten core) :
      Fails env .retention (.badRetentionVariable (String.ofList core))

/-- The first of the checks which fails, fails with the fault. -/
inductive FirstFault (env : Environment) : List Check → SettingsFault → Prop
  | here {check : Check} {rest : List Check} {fault : SettingsFault} (h : check.Fails env fault) :
      FirstFault env (check :: rest) fault
  | later {check : Check} {rest : List Check} {fault : SettingsFault}
      (h : ∀ fault, ¬ check.Fails env fault) (hrest : FirstFault env rest fault) :
      FirstFault env (check :: rest) fault

/-! ### Reading a variable -/

/-- What is parsed from the text of a variable; `standard` if it is not set. -/
def parsed {α : Type} (env : Environment) (name : String) (standard : α)
    (parse : List Char → Except SettingsFault α) : Except SettingsFault α :=
  (env name).elim (.ok standard) (fun s => parse (trim s.toList))

theorem parsed_ok_iff {α : Type} {env : Environment} {name : String} {standard a : α}
    {parse : List Char → Except SettingsFault α} {IsWritten : List Char → α → Prop}
    (hparse : ∀ cs a, parse cs = .ok a ↔ IsWritten cs a) :
  parsed env name standard parse = .ok a ↔ Gives env name standard IsWritten a
  := by
  rw [parsed]
  constructor
  · intro h
    cases hset : env name with
    | none =>
      rw [hset] at h
      cases h
      exact .unset hset
    | some s =>
      rw [hset] at h
      exact .set hset (isTrimmed_trim _) ((hparse _ a).mp h)
  · rintro (hunset | ⟨hset, hcore, ha⟩)
    · rw [hunset]
      rfl
    · rw [hset, Option.elim_some, trim_eq_iff.mpr hcore]
      exact (hparse _ a).mpr ha

theorem parsed_error_iff {α : Type} {env : Environment} {name : String} {standard : α}
    {parse : List Char → Except SettingsFault α} {fault : SettingsFault} :
  parsed env name standard parse = .error fault
    ↔ ∃ s core, env name = some s ∧ IsTrimmed core s.toList ∧ parse core = .error fault
  := by
  rw [parsed]
  constructor
  · intro h
    cases hset : env name with
    | none =>
      rw [hset] at h
      cases h
    | some s =>
      rw [hset] at h
      exact ⟨s, trim s.toList, rfl, isTrimmed_trim _, h⟩
  · rintro ⟨s, core, hset, hcore, h⟩
    rw [hset, Option.elim_some, trim_eq_iff.mpr hcore, h]

theorem number_eq_parsed (env : Environment) (name : String) (standard : Nat) :
  number env name standard
    = parsed env name standard (fun cs => (readNat64 cs).mapError (.badNumber name))
  := by
  rw [number, parsed]
  cases env name with
  | none => rfl
  | some s =>
    simp only [Option.elim_some]
    cases readNat64 (trim s.toList) <;> rfl

theorem number_ok_iff {env : Environment} {name : String} {standard n : Nat} :
  number env name standard = .ok n ↔ GivesNumber env name standard n
  := by
  rw [number_eq_parsed]
  apply parsed_ok_iff
  intro cs n
  have hread : readNat64 cs = .ok n ↔ IsNumeral (afterPlus cs) n ∧ n < 2 ^ 64 :=
    readNat_ok_iff.trans (and_congr_right' Nat.le_iff_lt_add_one)
  rw [← hread]
  cases readNat64 cs <;> simp [Except.mapError]

theorem number_error_iff {env : Environment} {name : String} {standard : Nat}
    {fault : SettingsFault} :
  number env name standard = .error fault ↔ Check.Fails env (.number name) fault
  := by
  rw [number_eq_parsed, parsed_error_iff]
  constructor
  · rintro ⟨s, core, hset, hcore, h⟩
    cases hread : readNat64 core with
    | error e =>
      rw [hread] at h
      cases h
      exact .number hset hcore (readNat_error_iff.mp hread)
    | ok n =>
      rw [hread] at h
      cases h
  · intro h
    cases h with
    | @number _ s core e hset hcore hfault =>
      have hread : readNat64 core = .error e := readNat_error_iff.mpr hfault
      refine ⟨s, core, hset, hcore, ?_⟩
      rw [hread]
      rfl

theorem retention_eq_parsed (env : Environment) :
  retention env = parsed env "TRACKER_RETENTION" Settings.standard.retention (fun cs =>
    (Retention.parse? (String.ofList cs)).elim
      (.error (.badRetentionVariable (String.ofList cs))) .ok)
  := by
  rw [retention, parsed]
  cases env "TRACKER_RETENTION" with
  | none => rfl
  | some s =>
    simp only [Option.elim_some]
    cases Retention.parse? (String.ofList (trim s.toList)) <;> rfl

theorem retention_ok_iff {env : Environment} {r : Retention} :
  retention env = .ok r ↔ GivesRetention env r
  := by
  rw [retention_eq_parsed]
  apply parsed_ok_iff
  intro cs r
  rw [← Retention.parse?_eq_some_iff]
  cases Retention.parse? (String.ofList cs) <;> simp

theorem retention_error_iff {env : Environment} {fault : SettingsFault} :
  retention env = .error fault ↔ Check.Fails env .retention fault
  := by
  rw [retention_eq_parsed, parsed_error_iff]
  constructor
  · rintro ⟨s, core, hset, hcore, h⟩
    cases hr : Retention.parse? (String.ofList core) with
    | none =>
      rw [hr] at h
      cases h
      exact .retention hset hcore (Retention.parse?_eq_none_iff.mp hr)
    | some r =>
      rw [hr] at h
      cases h
  · intro h
    cases h with
    | @retention s core hset hcore hnone =>
      refine ⟨s, core, hset, hcore, ?_⟩
      rw [Retention.parse?_eq_none_iff.mpr hnone]
      rfl

/-! ### Reading in order -/

/-- Reading goes on to the other checks exactly if the first one does not fail. -/
theorem bind_error_iff {env : Environment} {check : Check} {rest : List Check} {α β : Type}
    {x : Except SettingsFault α} {f : α → Except SettingsFault β}
    (hcheck : ∀ fault, x = .error fault ↔ check.Fails env fault)
    (hrest : ∀ a, x = .ok a → ∀ fault, f a = .error fault ↔ FirstFault env rest fault)
    (fault : SettingsFault) :
  (x >>= f) = .error fault ↔ FirstFault env (check :: rest) fault
  := by
  cases x with
  | error e =>
    have he : check.Fails env e := (hcheck e).mp rfl
    constructor
    · rintro ⟨⟩
      exact .here he
    · rintro (h | ⟨h, -⟩)
      · exact congrArg Except.error (Except.error.inj ((hcheck fault).mpr h))
      · exact absurd he (h e)
  | ok a =>
    have hnot : ∀ fault, ¬ check.Fails env fault := fun e he => nomatch (hcheck e).mpr he
    constructor
    · exact fun h => .later hnot ((hrest a rfl fault).mp h)
    · rintro (h | ⟨-, h⟩)
      · exact absurd h (hnot fault)
      · exact (hrest a rfl fault).mpr h

/-- The partitions have to be some. -/
def somePartition (partitions : Nat) : Except SettingsFault Unit :=
  if partitions = 0 then .error .noPartition else .ok ()

/-- The text of a variable which has to be set. -/
def required (env : Environment) (name : String) : Except SettingsFault String :=
  (env name).elim (.error (.missing name)) .ok

/-- A configuration is read check by check. -/
theorem read_eq (env : Environment) :
  read env = (do
    let partitions ← number env "TRACKER_PARTITIONS" Settings.standard.partitions
    let _ ← somePartition partitions
    let databaseUrl ← required env "DATABASE_URL"
    let retention ← retention env
    let maxEnqueued ← number env "TRACKER_MAX_ENQUEUED_PER_SINK" Settings.standard.maxEnqueued
    let directMark ← number env "TRACKER_TRANSITION_TO_DIRECT_MARK" Settings.standard.directMark
    .ok ⟨databaseUrl, env "OTEL_ENDPOINT", (env "LOG_LEVEL").getD "info",
      ⟨partitions, retention, maxEnqueued, directMark⟩⟩)
  := by
  rw [read]
  congr 1
  funext partitions
  simp only [somePartition, required]
  by_cases hsome : partitions = 0
  · rw [if_pos hsome, if_pos hsome]
    rfl
  · rw [if_neg hsome, if_neg hsome]
    cases env "DATABASE_URL" <;> rfl

theorem somePartition_ok_iff {partitions : Nat} {u : Unit} :
  somePartition partitions = .ok u ↔ 1 ≤ partitions
  := by
  rw [somePartition]
  split <;> simp <;> omega

theorem somePartition_error_iff {env : Environment} {partitions : Nat}
    (hpartitions : GivesNumber env "TRACKER_PARTITIONS" Settings.standard.partitions partitions)
    {fault : SettingsFault} :
  somePartition partitions = .error fault ↔ Check.Fails env .somePartition fault
  := by
  rw [← number_ok_iff] at hpartitions
  rw [somePartition]
  constructor
  · intro h
    split at h
    · subst_vars
      cases h
      exact .somePartition (number_ok_iff.mp hpartitions)
    · cases h
  · intro h
    cases h with
    | somePartition hzero =>
      obtain rfl := Except.ok.inj (hpartitions.symm.trans (number_ok_iff.mpr hzero))
      rfl

theorem required_ok_iff {env : Environment} {name text : String} :
  required env name = .ok text ↔ env name = some text
  := by
  rw [required]
  cases env name <;> simp

theorem required_error_iff {env : Environment} {name : String} {fault : SettingsFault} :
  required env name = .error fault ↔ Check.Fails env (.required name) fault
  := by
  rw [required]
  constructor
  · intro h
    cases hset : env name with
    | none =>
      obtain rfl : SettingsFault.missing name = fault := by simpa [hset] using h
      exact .required hset
    | some text => simp [hset] at h
  · intro h
    cases h with
    | required hset => simp [hset]

theorem read_ok_iff {env : Environment} {config : Configuration} :
  read env = .ok config ↔ Given env config
  := by
  simp only [read_eq, except_bind_ok_iff, number_ok_iff, somePartition_ok_iff, required_ok_iff,
    retention_ok_iff]
  constructor
  · rintro ⟨partitions, hpartitions, -, hsome, url, hurl, retention, hretention, maxEnqueued,
      hmaxEnqueued, directMark, hdirectMark, ⟨⟩⟩
    exact ⟨hpartitions, hsome, hurl, hretention, hmaxEnqueued, hdirectMark, rfl, rfl⟩
  · rintro h
    refine ⟨_, h.partitions, (), h.one_le_partitions, _, h.databaseUrl, _, h.retention, _,
      h.maxEnqueued, _, h.directMark, ?_⟩
    rw [← h.telemetryEndpoint, ← h.logLevel]

theorem read_error_iff {env : Environment} {fault : SettingsFault} :
  read env = .error fault ↔ FirstFault env Check.inOrder fault
  := by
  rw [read_eq]
  apply bind_error_iff fun _ => number_error_iff
  intro partitions hpartitions
  apply bind_error_iff fun _ => somePartition_error_iff (number_ok_iff.mp hpartitions)
  intro _ _
  apply bind_error_iff fun _ => required_error_iff
  intro url _
  apply bind_error_iff fun _ => retention_error_iff
  intro retention _
  apply bind_error_iff fun _ => number_error_iff
  intro maxEnqueued _
  apply bind_error_iff fun _ => number_error_iff
  intro directMark _ fault
  exact iff_of_false (fun h => nomatch h) (fun h => nomatch h)

/-- An environment gives a configuration if each of its variables gives something. -/
theorem exists_given_iff {env : Environment} :
  (∃ config, Given env config) ↔
    (∃ n, GivesNumber env "TRACKER_PARTITIONS" Settings.standard.partitions n ∧ 1 ≤ n) ∧
    (∃ url, env "DATABASE_URL" = some url) ∧
    (∃ r, GivesRetention env r) ∧
    (∃ n, GivesNumber env "TRACKER_MAX_ENQUEUED_PER_SINK" Settings.standard.maxEnqueued n) ∧
    ∃ n, GivesNumber env "TRACKER_TRANSITION_TO_DIRECT_MARK" Settings.standard.directMark n
  := by
  constructor
  · rintro ⟨config, h⟩
    exact ⟨⟨_, h.partitions, h.one_le_partitions⟩, ⟨_, h.databaseUrl⟩, ⟨_, h.retention⟩,
      ⟨_, h.maxEnqueued⟩, ⟨_, h.directMark⟩⟩
  · rintro ⟨⟨partitions, hpartitions, hsome⟩, ⟨url, hurl⟩, ⟨retention, hretention⟩,
      ⟨maxEnqueued, hmaxEnqueued⟩, ⟨directMark, hdirectMark⟩⟩
    exact ⟨⟨url, env "OTEL_ENDPOINT", (env "LOG_LEVEL").getD "info",
      ⟨partitions, retention, maxEnqueued, directMark⟩⟩,
      hpartitions, hsome, hurl, hretention, hmaxEnqueued, hdirectMark, rfl, rfl⟩

/--
What is read from an environment is the configuration it gives.  It gives one exactly if the
database is named and every other variable gives something, the partitions at least one.  Otherwise
reading fails, with the fault of the first check in order which fails.
-/
theorem read_given_or_first_fault :
  (∀ env config, read env = .ok config ↔ Given env config) ∧
  (∀ env, (∃ config, read env = .ok config) ↔
    (∃ n, GivesNumber env "TRACKER_PARTITIONS" Settings.standard.partitions n ∧ 1 ≤ n) ∧
    (∃ url, env "DATABASE_URL" = some url) ∧
    (∃ r, GivesRetention env r) ∧
    (∃ n, GivesNumber env "TRACKER_MAX_ENQUEUED_PER_SINK" Settings.standard.maxEnqueued n) ∧
    ∃ n, GivesNumber env "TRACKER_TRANSITION_TO_DIRECT_MARK" Settings.standard.directMark n) ∧
  ∀ env fault, read env = .error fault ↔ FirstFault env Check.inOrder fault
  := by
  refine ⟨fun _ _ => read_ok_iff, ?_, fun _ _ => read_error_iff⟩
  intro env
  rw [← exists_given_iff]
  exact exists_congr fun _ => read_ok_iff

example :
  read (fun name => if name = "DATABASE_URL" then none else some "\u2003+0")
    = .error .noPartition
  := by decide +kernel

end Configuration

end ChunkDispatch
