import Mathlib.Data.List.Induction
import Baseboard.Console

/-!
# Baseboard.Proofs.Settings

Settings seen one by one.  A list of changes sets some of them more than once and others not at
all; what counts for each is its last change (`lastChange`), and a change to one setting leaves
the others alone (`Settings.get_apply`).  What is made from the changes is checked in a fixed
order (`Check.inOrder`).

Main statement: settings are made from a list of changes just when the last changes are usable,
the first check that fails is reported otherwise, and a console takes whatever was made
(`Settings.build_decided`).
-/

namespace Baseboard

/-! ## Changes of one setting -/

/-- The settings by name. -/
inductive Setting where
  | username
  | password
  | privilege
  | cipherSuite
  | timeout
  | retries
  | fruReadBytes
  | reservationRetries
  | erasePollInterval
  | erasePollLimit
  deriving DecidableEq

/-- The setting that is changed. -/
def Change.setting : Change → Setting
  | username _ => .username
  | password _ => .password
  | privilege _ => .privilege
  | cipherSuite _ => .cipherSuite
  | timeout _ => .timeout
  | retries _ => .retries
  | fruReadBytes _ => .fruReadBytes
  | reservationRetries _ => .reservationRetries
  | erasePollInterval _ => .erasePollInterval
  | erasePollLimit _ => .erasePollLimit

namespace Settings

/-- A setting, as the change that makes it what it is. -/
def get (s : Settings) : Setting → Change
  | .username => .username s.username
  | .password => .password s.password.bytes
  | .privilege => .privilege s.privilege
  | .cipherSuite => .cipherSuite s.cipherSuite
  | .timeout => .timeout s.timeout
  | .retries => .retries s.retries
  | .fruReadBytes => .fruReadBytes s.fruReadBytes
  | .reservationRetries => .reservationRetries s.reservationRetries
  | .erasePollInterval => .erasePollInterval s.erasePollInterval
  | .erasePollLimit => .erasePollLimit s.erasePollLimit

/-- A change is all that is seen of its setting, and nothing of the others. -/
theorem get_apply (s : Settings) (c : Change) (setting : Setting) :
    (s.apply c).get setting = if c.setting = setting then c else s.get setting := by
  cases c <;> cases setting <;> rfl

theorem ext_get {s s' : Settings} (h : ∀ setting, s.get setting = s'.get setting) : s = s' := by
  have husername := Change.username.inj (h .username)
  have hpassword := congrArg Secret.mk (Change.password.inj (h .password))
  have hprivilege := Change.privilege.inj (h .privilege)
  have hcipherSuite := Change.cipherSuite.inj (h .cipherSuite)
  have htimeout := Change.timeout.inj (h .timeout)
  have hretries := Change.retries.inj (h .retries)
  have hfruReadBytes := Change.fruReadBytes.inj (h .fruReadBytes)
  have hreservationRetries := Change.reservationRetries.inj (h .reservationRetries)
  have hinterval := Change.erasePollInterval.inj (h .erasePollInterval)
  have hlimit := Change.erasePollLimit.inj (h .erasePollLimit)
  cases s
  cases s'
  simp only [mk.injEq]
  exact ⟨husername, hpassword, hprivilege, hcipherSuite, htimeout, hretries, hfruReadBytes,
    hreservationRetries, hinterval, hlimit⟩

end Settings

/-- The last of the changes of a setting, that to the default if there are none. -/
def lastChange (changes : List Change) (setting : Setting) : Change :=
  ((changes.filter (·.setting = setting)).getLast?).getD (Settings.standard.get setting)

theorem lastChange_append (changes : List Change) (c : Change) (setting : Setting) :
    lastChange (changes ++ [c]) setting =
      if c.setting = setting then c else lastChange changes setting := by
  rw [lastChange, List.filter_append, lastChange]
  split
  · next h => simp [h]
  · next h => simp [h]

namespace Settings

/-- Every setting is what it was changed to last. -/
theorem get_ofChanges (changes : List Change) (setting : Setting) :
    (ofChanges changes).get setting = lastChange changes setting := by
  induction changes using List.reverseRecOn with
  | nil => rfl
  | append_singleton changes c ih =>
      rw [ofChanges, List.foldl_append, List.foldl_cons, List.foldl_nil, get_apply,
        lastChange_append, ← ih]
      rfl

theorem ofChanges_eq_of_lastChange {changes changes' : List Change}
    (h : ∀ setting, lastChange changes setting = lastChange changes' setting) :
    ofChanges changes = ofChanges changes' := by
  refine ext_get fun setting => ?_
  rw [get_ofChanges, get_ofChanges, h]

/-- Changes of two settings can be made in either order. -/
theorem ofChanges_swap {c c' : Change} (h : c.setting ≠ c'.setting)
    (before after : List Change) :
    ofChanges (before ++ c :: c' :: after) = ofChanges (before ++ c' :: c :: after) := by
  have hcomm (s : Settings) : (s.apply c).apply c' = (s.apply c').apply c := by
    refine ext_get fun setting => ?_
    simp only [get_apply]
    grind
  simp only [ofChanges, List.foldl_append, List.foldl_cons, hcomm]

end Settings

/-! ## Checks -/

/-- What is checked of settings. -/
inductive Check where
  | username
  | password
  | cipherSuiteDefined
  | cipherSuiteOffered
  | privilege
  | fruReadBytes

namespace Check

/-- The fault that a check finds in settings. -/
def fault? (s : Settings) : Check → Option SettingsFault
  | username =>
    if 16 < s.username.length then some (.usernameTooLong s.username.length) else none
  | password =>
    if 20 < s.password.bytes.length then some (.passwordTooLong s.password.bytes.length) else none
  | cipherSuiteDefined =>
    if 17 < s.cipherSuite then some (.invalidCipherSuite s.cipherSuite) else none
  | cipherSuiteOffered =>
    if 3 < s.cipherSuite then some (.unsupportedCipherSuite s.cipherSuite) else none
  | privilege => if s.privilege = .oem then some (.unsupportedPrivilege s.privilege) else none
  | fruReadBytes => if s.fruReadBytes = 0 then some .zeroFruReadSize else none

/-- The order of the checks. -/
def inOrder : List Check :=
  [username, password, cipherSuiteDefined, cipherSuiteOffered, privilege, fruReadBytes]

theorem mem_inOrder (check : Check) : check ∈ inOrder := by
  cases check <;> simp [inOrder]

theorem findSome?_cons_of_ite {s : Settings} {check : Check} {checks : List Check} {fails : Prop}
    [Decidable fails] {fault : SettingsFault}
    (h : check.fault? s = if fails then some fault else none) :
    (check :: checks).findSome? (·.fault? s) =
      if fails then some fault else checks.findSome? (·.fault? s) := by
  by_cases hfails : fails
  · rw [if_pos hfails] at h
    rw [if_pos hfails, List.findSome?_cons, h]
  · rw [if_neg hfails] at h
    rw [if_neg hfails, List.findSome?_cons, h]

end Check

namespace Settings

/-- What settings have to keep to. -/
structure Usable (s : Settings) : Prop where
  username : s.username.length ≤ 16
  password : s.password.bytes.length ≤ 20
  cipherSuite : s.cipherSuite ≤ 3
  privilege : s.privilege ≠ .oem
  fruReadBytes : 1 ≤ s.fruReadBytes

theorem one_le_iff_ne_zero {count : UInt8} : 1 ≤ count ↔ count ≠ 0 := by
  rw [UInt8.le_iff_toNat_le, ne_eq, ← UInt8.toNat_inj]
  exact Nat.one_le_iff_ne_zero

theorem usable_iff {s : Settings} : s.Usable ↔ ∀ check : Check, check.fault? s = none := by
  constructor
  · intro h check
    cases check with
    | username => exact if_neg (Nat.not_lt.mpr h.username)
    | password => exact if_neg (Nat.not_lt.mpr h.password)
    | cipherSuiteDefined =>
        exact if_neg (UInt8.not_lt.mpr (UInt8.le_trans h.cipherSuite (by decide)))
    | cipherSuiteOffered => exact if_neg (UInt8.not_lt.mpr h.cipherSuite)
    | privilege => exact if_neg h.privilege
    | fruReadBytes => exact if_neg (one_le_iff_ne_zero.mp h.fruReadBytes)
  · intro h
    exact
      { username := by simpa [Check.fault?] using h .username
        password := by simpa [Check.fault?] using h .password
        cipherSuite := by simpa [Check.fault?] using h .cipherSuiteOffered
        privilege := by simpa [Check.fault?] using h .privilege
        fruReadBytes := by simpa [Check.fault?, one_le_iff_ne_zero] using h .fruReadBytes }

/-- The fault of settings is that of the first check that finds one. -/
theorem fault?_eq_findSome? (s : Settings) :
    s.fault? = Check.inOrder.findSome? (·.fault? s) := by
  simp only [Check.inOrder]
  rw [Check.findSome?_cons_of_ite rfl, Check.findSome?_cons_of_ite rfl,
    Check.findSome?_cons_of_ite rfl, Check.findSome?_cons_of_ite rfl,
    Check.findSome?_cons_of_ite rfl, Check.findSome?_cons_of_ite rfl]
  rfl

theorem fault?_eq_none_iff {s : Settings} : s.fault? = none ↔ s.Usable := by
  rw [fault?_eq_findSome?, List.findSome?_eq_none_iff, usable_iff]
  exact ⟨fun h check => h check check.mem_inOrder, fun h check _ => h check⟩

/-- Whether a fault is the first that the checks find. -/
def FirstFault (s : Settings) (fault : SettingsFault) : Prop :=
  ∃ passed check rest, Check.inOrder = passed ++ check :: rest ∧
    check.fault? s = some fault ∧ ∀ check ∈ passed, check.fault? s = none

theorem fault?_eq_some_iff {s : Settings} {fault : SettingsFault} :
    s.fault? = some fault ↔ s.FirstFault fault := by
  rw [fault?_eq_findSome?, List.findSome?_eq_some_iff]
  rfl

theorem check_eq_ok_iff {s s' : Settings} : s.check = .ok s' ↔ s' = s ∧ s.Usable := by
  rw [check, ← fault?_eq_none_iff]
  cases s.fault? with
  | none => simp [eq_comm]
  | some fault => simp

theorem check_eq_error_iff {s : Settings} {fault : SettingsFault} :
    s.check = .error fault ↔ s.FirstFault fault := by
  rw [check, ← fault?_eq_some_iff]
  cases s.fault? with
  | none => simp
  | some fault' => simp

end Settings

/-- A console takes usable settings as they are. -/
theorem Console.exists_ofSettings {s : Settings} (h : s.Usable) :
    ∃ c, ofSettings s = .ok c ∧ c.settings = s := by
  unfold ofSettings
  split
  · exact ⟨_, rfl, rfl⟩
  · next fault hfault =>
    rw [Settings.fault?_eq_none_iff.mpr h] at hfault
    contradiction

namespace Settings

/-- Each list of changes stands for the settings that have every setting as it was changed last:
these are made just when they are usable, and their first fault is reported otherwise.  So no
other change matters, nor does the order in which two settings are changed; and a console takes
the defaults and whatever is made. -/
theorem build_decided :
    (∀ changes, ∃ s : Settings, (∀ setting, s.get setting = lastChange changes setting) ∧
      (∀ r, build changes = .ok r ↔ r = s ∧ s.Usable) ∧
      (∀ fault, build changes = .error fault ↔ s.FirstFault fault)) ∧
    (∀ changes changes',
        (∀ setting, lastChange changes setting = lastChange changes' setting) →
      build changes = build changes') ∧
    (∀ before after c c', c.setting ≠ c'.setting →
      build (before ++ c :: c' :: after) = build (before ++ c' :: c :: after)) ∧
    (∀ s, s = standard ∨ (∃ changes, build changes = .ok s) →
      ∃ c, Console.ofSettings s = .ok c ∧ c.settings = s) := by
  refine ⟨fun changes => ?_, fun changes changes' h => ?_, fun before after c c' h => ?_,
    fun s h => Console.exists_ofSettings ?_⟩
  · exact ⟨ofChanges changes, get_ofChanges changes, fun _ => check_eq_ok_iff,
      fun _ => check_eq_error_iff⟩
  · rw [build, build, ofChanges_eq_of_lastChange h]
  · rw [build, build, ofChanges_swap h]
  · rcases h with rfl | ⟨changes, h⟩
    · exact fault?_eq_none_iff.mp fault?_standard
    · obtain ⟨rfl, husable⟩ := check_eq_ok_iff.mp h
      exact husable

/-- A cipher suite that is not defined does no harm once another is set.  That one is not
offered, which is found before the privilege. -/
theorem build_cipherSuiteTwice :
    build [.cipherSuite 18, .privilege .oem, .cipherSuite 4] =
        .error (.unsupportedCipherSuite 4) ∧
      (∃ s : Settings, s.get .privilege = .privilege .oem ∧
        s.FirstFault (.unsupportedCipherSuite 4)) ∧
      build [.cipherSuite 18, .privilege .oem, .cipherSuite 4] =
        build [.cipherSuite 4, .privilege .oem] ∧
      build [.cipherSuite 4, .privilege .oem] = build [.privilege .oem, .cipherSuite 4] ∧
      ∃ c, Console.ofSettings standard = .ok c ∧ c.settings = standard := by
  obtain ⟨hdecided, hlast, hswap, haccepted⟩ := build_decided
  obtain ⟨s, hget, -, herror⟩ := hdecided [.cipherSuite 18, .privilege .oem, .cipherSuite 4]
  refine ⟨rfl, ⟨s, hget .privilege, (herror _).mp rfl⟩, hlast _ _ fun setting => ?_,
    hswap [] [] _ _ (by decide), haccepted standard (.inl rfl)⟩
  cases setting <;> rfl

end Settings

end Baseboard
