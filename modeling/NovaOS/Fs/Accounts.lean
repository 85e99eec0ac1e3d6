import NovaOS.Fs.Calls
import NovaOS.Fs.Modes
import NovaOS.Lib.Runs

/-!
# User accounts and the identity NovaFS works under

`kernel/account.c`: the database of accounts is a packed structure of 400 bytes that is read from and
saved to `users.db`.  `account_init` loads it under the root identity and ends in the login of the
desktop user; a login sets the identity the file system works under.

The database is a buffer that goes on behind its 400 bytes: a name without a terminator is compared
with what follows it in memory.

* `accountInit`, `accountLogin`, `accountCreate`, `accountCurrentIsAdmin` — the functions of the source;
* `AdminOnly` — the identity is privileged only while an administrator is logged in;
* `Savable` — the volume takes the default database;
* `privileged_only_admin_iff` — every call keeps it exactly when the login at the end of
  `account_init` is reached and finds its account.
-/

namespace NovaOS.Fs

def accountMax : ℕ := 8
def accountNameMax : ℕ := 23
def databaseSize : ℕ := 400
def accountRecordSize : ℕ := 48

/-- The bytes of `"users.db"`. -/
def usersDb : Name := [117, 115, 101, 114, 115, 46, 100, 98]

/-- The bytes of `ACCOUNT_MAGIC`. -/
def accountMagic : List UInt8 := [78, 79, 86, 65, 85, 83, 82, 49]

/-- The bytes of `"root"` and of its password `"nova"`. -/
def rootName : List UInt8 := [114, 111, 111, 116]
def rootPassword : List UInt8 := [110, 111, 118, 97]

/-- The bytes of `"eunseokyang"`. -/
def desktopName : List UInt8 := [101, 117, 110, 115, 101, 111, 107, 121, 97, 110, 103]

/-! ### The database -/

/-- The memory from `database` on. -/
abbrev AccountDatabase := ℕ → UInt8

namespace AccountDatabase

variable (database : AccountDatabase)

def count : ℕ := loadWord 4 database 12

/-- Where `records[index]` starts. -/
def recordAt (index : ℕ) : ℕ := 16 + index * accountRecordSize

def uid (index : ℕ) : ℕ := loadWord 4 database (recordAt index + 24)
def flags (index : ℕ) : ℕ := loadWord 4 database (recordAt index + 28)
def salt (index : ℕ) : ℕ := loadWord 8 database (recordAt index + 32)
def passwordHash (index : ℕ) : ℕ := loadWord 8 database (recordAt index + 40)

/-- `!strcmp(record->name, name)`. -/
def named (index : ℕ) (name : List UInt8) : Bool :=
  readBytes database (recordAt index) (name.length + 1) == name ++ [0]

def setCount (count : ℕ) : AccountDatabase := storeWord 4 database 12 count

end AccountDatabase

open AccountDatabase

/-- `password_hash`. -/
def passwordHash (password : List UInt8) (salt : ℕ) : ℕ :=
  let hash := password.foldl (fun hash byte => (hash ^^^ byte.toNat) * 1099511628211 % 2 ^ 64)
    (1469598103934665603 ^^^ salt)
  (hash ^^^ salt / 2 ^ 32) * 1099511628211 % 2 ^ 64

/-- `valid_account_name`. -/
def validAccountName (name : List UInt8) : Bool :=
  name.length != 0 && name.length ≤ accountNameMax &&
    name.all fun character =>
      (97 ≤ character && character ≤ 122) || (65 ≤ character && character ≤ 90) ||
        (48 ≤ character && character ≤ 57) || character == 95 || character == 45

/-- The bytes `add_default` stores in a record; the last byte of the name is left as it is. -/
def addDefault (database : AccountDatabase) (index : ℕ) (name : List UInt8) (uid : ℕ)
    (password : List UInt8) (administrator : Bool) : AccountDatabase :=
  let salt := 0x4E4F564100000000 ^^^ uid * 2 ^ 17 % 2 ^ 64 ^^^ name.length
  let database := writeBytes database (recordAt index)
    (name.take 23 ++ List.replicate (23 - name.length) 0)
  writeBytes database (recordAt index + 24)
    (leBytes 4 uid ++ leBytes 4 (if administrator then 1 else 0) ++ leBytes 8 salt ++
      leBytes 8 (passwordHash password salt))

/-- The database `account_init` starts with when there is none to load. -/
def defaultDatabase (database : AccountDatabase) : AccountDatabase :=
  let database := writeBytes database 0 (List.replicate databaseSize 0)
  let database := writeBytes database 0 (accountMagic ++ leBytes 4 1 ++ leBytes 4 2)
  let database := addDefault database 0 rootName 0 rootPassword true
  addDefault database 1 desktopName 1000 [] false

/-- Whether `account_init` takes the bytes it has read for a database. -/
def validDatabase (contents : List UInt8) : Bool :=
  contents.length == databaseSize && contents.take 8 == accountMagic &&
    leValue ((contents.drop 8).take 4) == 1 &&
    2 ≤ leValue ((contents.drop 12).take 4) && leValue ((contents.drop 12).take 4) ≤ accountMax

/-! ### The calls -/

structure Accounts where
  database : AccountDatabase
  currentIndex : Option ℕ
  volume : Volume

/-- `save_database`. -/
def saveDatabase (database : AccountDatabase) (v : Volume) : Bool × Volume :=
  match fsWrite v usersDb (readBytes database 0 databaseSize) with
  | (false, v) => (false, v)
  | (true, v) => fsChmod v usersDb 0o600

/-- The account a name and a password belong to. -/
def findAccount (database : AccountDatabase) (name password : List UInt8) : Option ℕ :=
  (List.range database.count).find? fun index =>
    database.named index name &&
      database.passwordHash index == Fs.passwordHash password (database.salt index)

/-- `flags & ACCOUNT_ADMIN`. -/
def isAdministrator (database : AccountDatabase) (index : ℕ) : Bool :=
  (database.flags index).testBit 0

/-- `account_login`; `none` is a `NULL` argument. -/
def accountLogin (s : Accounts) : Option (List UInt8) → Option (List UInt8) → Bool × Accounts
  | some name, some password =>
    match findAccount s.database name password with
    | none => (false, s)
    | some index =>
      (true, { s with
        currentIndex := some index
        volume := fsSetIdentity s.volume (s.database.uid index) (isAdministrator s.database index) })
  | _, _ => (false, s)

/-- `account_current_is_admin`. -/
def accountCurrentIsAdmin (s : Accounts) : Bool :=
  match s.currentIndex with
  | none => false
  | some index => isAdministrator s.database index

/-- `account_init`. -/
def accountInit (s : Accounts) : Bool × Accounts :=
  let v := fsSetIdentity s.volume 0 true
  let loaded := (fsRead v usersDb databaseSize).getD []
  if validDatabase loaded then
    accountLogin { s with database := writeBytes s.database 0 loaded, volume := v }
      (some desktopName) (some [])
  else
    match saveDatabase (defaultDatabase s.database) v with
    | (false, v) => (false, { s with database := defaultDatabase s.database, volume := v })
    | (true, v) =>
      accountLogin { s with database := defaultDatabase s.database, volume := v }
        (some desktopName) (some [])

/-- The record `account_create` fills in. -/
def createRecord (database : AccountDatabase) (name password : List UInt8) (administrator : Bool) :
    AccountDatabase :=
  addDefault (writeBytes database (recordAt database.count) (List.replicate accountRecordSize 0))
    database.count name (1000 + database.count) password administrator

/-- `account_create`. -/
def accountCreate (s : Accounts) (name : List UInt8) (password : Option (List UInt8))
    (administrator : Bool) : Bool × Accounts :=
  match password with
  | none => (false, s)
  | some password =>
    if s.currentIndex = none ∨ !accountCurrentIsAdmin s ∨ !validAccountName name ∨
        accountMax ≤ s.database.count then (false, s)
    else if (List.range s.database.count).any fun index => s.database.named index name then (false, s)
    else
      let count := s.database.count
      let database := createRecord s.database name password administrator
      match saveDatabase (database.setCount (count + 1)) s.volume with
      | (true, v) => (true, { s with database := database.setCount (count + 1), volume := v })
      | (false, v) =>
        (false, { s with database := (database.setCount (count + 1)).setCount count, volume := v })

inductive AccountCall
  | login (name password : Option (List UInt8))
  | create (name : List UInt8) (password : Option (List UInt8)) (administrator : Bool)

def Accounts.step (s : Accounts) : AccountCall → Accounts
  | .login name password => (accountLogin s name password).2
  | .create name password administrator => (accountCreate s name password administrator).2

/-- The file system works with privileges only while an administrator is logged in. -/
def AdminOnly (s : Accounts) : Prop :=
  s.volume.currentPrivileged = true → accountCurrentIsAdmin s = true

instance (s : Accounts) : Decidable (AdminOnly s) := inferInstanceAs (Decidable (_ → _))

/-- A sector the driver takes. -/
def Volume.OnDisk (v : Volume) (lba : ℕ) : Prop := lba < v.totalSectors ∧ lba < 0x10000000

/-- Where a file of one sector goes that is written to an entry. -/
def dataLba (v : Volume) (index : ℕ) : ℕ :=
  if (v.entries index).capacitySectors = 0 then nextDataLba v else (v.entries index).startLba

/-- There is a sector for the data, and the entries that are saved lie on the disk: that of the file, and
that of the name, which may be a link. -/
def Volume.Takes (v : Volume) (lba index named : ℕ) : Prop :=
  (lba < v.totalSectors ∧ v.OnDisk (lba % 2 ^ 32) ∧ v.OnDisk (4097 + index / 4)) ∧
    v.OnDisk (4097 + named / 4)

/-- **`users.db` can be saved**: it is there as a file or as a link to one, or an entry is free, and what
is written has its place on the disk. -/
def Savable (v : Volume) : Prop :=
  v.mounted = true ∧
    match findEntry v usersDb with
    | none => ∃ index, (List.range' 0 1024).find? (fun index => !(v.entries index).used) = some index ∧
        v.Takes (nextDataLba v) index index
    | some named => ∃ index, writeTarget v usersDb = some index ∧ (v.entries index).type = .file ∧
        v.Takes (dataLba v index) index named

/-- The database on the disk has the account of the desktop user, with the empty password; or there
is no database, and the default one can be saved. -/
def DesktopAccount (database : AccountDatabase) (v : Volume) : Prop :=
  let v := fsSetIdentity v 0 true
  let loaded := (fsRead v usersDb databaseSize).getD []
  if validDatabase loaded then (findAccount (writeBytes database 0 loaded) desktopName []).isSome = true
  else Savable v

/-! ### Saving -/

/-- What a call on files leaves as it is. -/
def settings (v : Volume) : ℕ × Bool × ℕ × Bool :=
  (v.totalSectors, v.mounted, v.currentUid, v.currentPrivileged)

section Saving

variable {v w : Volume} {index named : ℕ} {data : List UInt8}

theorem saveEntry_settings (v : Volume) (index : ℕ) : settings (saveEntry v index).2 = settings v := by
  unfold saveEntry
  simp only
  split
  · rfl
  · split
    · rfl
    · rfl

theorem writeEntryData_settings (v : Volume) (index : ℕ) (data : List UInt8) :
    settings (writeEntryData v index data).2 = settings v := by
  unfold writeEntryData
  dsimp only
  generalize (if (v.entries index).capacitySectors < requiredSectors data.length then _ else _ :
    FsEntry) = entry
  split
  · rfl
  · split
    · rfl
    · split
      · rfl
      · exact saveEntry_settings _ index

theorem fsWrite_settings (v : Volume) (name : Name) (data : List UInt8) :
    settings (fsWrite v name data).2 = settings v := by
  unfold fsWrite
  split
  · rfl
  have hopen : settings (openWrite v name).2 = settings v := by
    obtain ⟨_, heq, -⟩ | ⟨_, -, -, -, -, -, heq⟩ := openWrite_outcome v name
    · rw [heq]
    · rw [heq]
      rfl
  split
  · rename_i v₁ heq
    rw [heq] at hopen
    exact hopen
  · rename_i index v₁ heq
    rw [heq] at hopen
    split
    · exact hopen
    · exact (writeEntryData_settings v₁ index data).trans hopen

theorem fsChmod_settings (v : Volume) (name : Name) (mode : ℕ) :
    settings (fsChmod v name mode).2 = settings v := by
  unfold fsChmod
  split
  · rfl
  · split
    · rfl
    · split
      · rfl
      · exact saveEntry_settings _ _

theorem saveDatabase_privileged (database : AccountDatabase) (v : Volume) :
    (saveDatabase database v).2.currentPrivileged = v.currentPrivileged := by
  unfold saveDatabase
  have hwrite := fsWrite_settings v usersDb (readBytes database 0 databaseSize)
  refine congrArg (·.2.2.2) (?_ : settings _ = settings v)
  split
  · rename_i v₁ heq
    rw [heq] at hwrite
    exact hwrite
  · rename_i v₁ heq
    rw [heq] at hwrite
    exact (fsChmod_settings v₁ usersDb 0o600).trans hwrite

theorem onDisk_congr (h : settings w = settings v) (lba : ℕ) : w.OnDisk lba ↔ v.OnDisk lba := by
  rw [Volume.OnDisk, Volume.OnDisk, show w.totalSectors = v.totalSectors from congrArg Prod.fst h]

theorem saveEntry_iff (v : Volume) (index : ℕ) :
    (saveEntry v index).1 = true ↔ v.OnDisk (4097 + index / 4) := by
  unfold saveEntry
  simp only
  constructor
  · intro h
    split at h
    · cases h
    · rename_i hread
      exact (ataReadSector_some.1 hread).1
  · intro hon
    rw [ataReadSector_some.2 ⟨hon, rfl⟩]
    simp only
    rw [ataWriteSector_some.2 ⟨hon, rfl⟩]

theorem writeEntryData_iff (hone : requiredSectors data.length = 1) :
    (writeEntryData v index data).1 = true ↔ dataLba v index < v.totalSectors ∧
      v.OnDisk (dataLba v index % 2 ^ 32) ∧ v.OnDisk (4097 + index / 4) := by
  rw [writeEntryData, hone, if_neg (by decide)]
  generalize hentry : (if (v.entries index).capacitySectors < 1 then _ else _ : FsEntry) = entry
  have hlba : dataLba v index = entry.startLba := by
    rw [← hentry, dataLba]
    by_cases hzero : (v.entries index).capacitySectors = 0
    · rw [if_pos hzero, if_pos (by omega)]
    · rw [if_neg hzero, if_neg (by omega)]
  rw [hlba]
  simp only
  split
  · rename_i hend
    exact iff_of_false Bool.false_ne_true fun h => Nat.not_lt.2 h.1 hend
  rename_i hend
  rw [and_iff_right (show entry.startLba < v.totalSectors from Nat.not_lt.1 hend), writeBlocks,
    Nat.add_zero]
  cases hwrite : ataWriteSector _ _ (entry.startLba % 2 ^ 32) _ with
  | none =>
    refine iff_of_false Bool.false_ne_true fun h => ?_
    cases hwrite.symm.trans (ataWriteSector_some.2 ⟨h.1, rfl⟩)
  | some disk =>
    rw [and_iff_right (show v.OnDisk _ from (ataWriteSector_some.1 hwrite).1)]
    exact saveEntry_iff _ index

/-- A file that was opened is written, and the name is then found and given its mode. -/
theorem written_iff (hone : requiredSectors data.length = 1) (hpriv : v.currentPrivileged = true)
    (hmounted : v.mounted = true) (hfind : findEntry v usersDb = some named) :
    (match (if (v.entries index).type ≠ FsType.file || !mayWrite v (v.entries index) then (false, v)
        else writeEntryData v index data) with
      | (false, v) => (false, v)
      | (true, v) => fsChmod v usersDb 0o600).1 = true ↔
        (v.entries index).type = .file ∧ v.Takes (dataLba v index) index named := by
  rw [mayWrite, if_pos hpriv]
  by_cases htype : (v.entries index).type = .file
  swap
  · rw [if_pos (by simpa using htype)]
    exact iff_of_false Bool.false_ne_true fun h => htype h.1
  rw [if_neg (by simpa using htype), and_iff_right htype, Volume.Takes, ← writeEntryData_iff hone]
  have hsettings := writeEntryData_settings v index data
  obtain ⟨e, ⟨hused, hname, -⟩, hentries⟩ := writeEntryData_entries v index data
  have hfound : findEntry (writeEntryData v index data).2 usersDb = some named := by
    rw [← hfind]
    refine findEntry_congr fun j => ?_
    rw [hentries]
    by_cases hj : j = index
    · rw [hj, Function.update_self]
      exact ⟨hused, hname⟩
    · rw [Function.update_of_ne hj]
      exact ⟨rfl, rfl⟩
  rcases hwrite : writeEntryData v index data with ⟨_ | _, w⟩
  · exact iff_of_false Bool.false_ne_true fun h => Bool.false_ne_true h.1
  · rw [hwrite] at hsettings hfound
    have hm : w.mounted = true := (congrArg (·.2.1) hsettings).trans hmounted
    have hp : w.currentPrivileged = true := (congrArg (·.2.2.2) hsettings).trans hpriv
    simp only [true_and]
    rw [fsChmod, hm, hfound, if_neg (by decide), hp]
    exact (saveEntry_iff _ named).trans (onDisk_congr hsettings _)

/-- **`save_database`** succeeds exactly when `users.db` can be saved. -/
theorem saveDatabase_iff (hpriv : v.currentPrivileged = true) (database : AccountDatabase) :
    (saveDatabase database v).1 = true ↔ Savable v := by
  have hone : requiredSectors (readBytes database 0 databaseSize).length = 1 := by
    rw [length_readBytes]
    decide
  rw [saveDatabase, Savable, fsWrite]
  cases hmounted : v.mounted with
  | false => exact iff_of_false Bool.false_ne_true fun h => Bool.false_ne_true h.1
  | true =>
    rw [if_neg (by decide), and_iff_right rfl]
    cases hfind : findEntry v usersDb with
    | none =>
      have hparent : parentDirectoryExists v usersDb = true := rfl
      rw [openWrite, hfind]
      simp only
      rw [allocateEntry, hfind, hparent, if_neg (by decide)]
      cases hfree : (List.range' 0 1024).find? fun index => !(v.entries index).used with
      | none => exact iff_of_false Bool.false_ne_true fun h => by simp at h
      | some index =>
        simp only [Option.some.injEq, exists_eq_left']
        have hunused : (v.entries index).used = false := by simpa using List.find?_some hfree
        have hbound := (List.mem_range'_1.1 (List.mem_of_find?_eq_some hfree)).2
        have hfound : findEntry (v.setEntry index (newEntry v usersDb .file 0o660)) usersDb = some index :=
          findEntry_setEntry hfind (by omega) rfl rfl
        have hlba : dataLba (v.setEntry index (newEntry v usersDb .file 0o660)) index = nextDataLba v := by
          rw [dataLba, v.setEntry_self, nextDataLba_newEntry hunused]
          rfl
        refine (written_iff (v := v.setEntry index _) hone hpriv hmounted hfound).trans ?_
        rw [hlba, v.setEntry_self]
        exact and_iff_right rfl
    | some named =>
      have hopen : openWrite v usersDb = (writeTarget v usersDb, v) := by
        rw [openWrite, writeTarget, hfind]
        exact (apply_ite (·, v) ..).symm
      rw [hopen]
      cases writeTarget v usersDb with
      | none => exact iff_of_false Bool.false_ne_true fun h => by simp at h
      | some index =>
        simp only [Option.some.injEq, exists_eq_left']
        exact written_iff hone hpriv hmounted hfind

end Saving

/-! ### The invariant -/

/-- Somebody is logged in, under an account that exists, and the identity is that account's. -/
structure AccountsOk (s : Accounts) : Prop where
  limit : s.database.count ≤ accountMax
  current : ∃ index, s.currentIndex = some index ∧ index < s.database.count ∧
    s.volume.currentPrivileged = isAdministrator s.database index

variable {s : Accounts} {database : AccountDatabase} {v : Volume}

theorem AccountsOk.adminOnly (h : AccountsOk s) : AdminOnly s := by
  obtain ⟨index, hindex, -, hpriv⟩ := h.current
  intro hp
  rw [accountCurrentIsAdmin, hindex]
  exact hpriv.symm.trans hp

theorem AccountsOk.login (hlimit : s.database.count ≤ accountMax) {name password : List UInt8}
    (hfind : (findAccount s.database name password).isSome) :
    AccountsOk (accountLogin s (some name) (some password)).2 := by
  obtain ⟨index, heq⟩ := Option.isSome_iff_exists.1 hfind
  rw [accountLogin, heq]
  exact ⟨hlimit, index, rfl, List.mem_range.1 (List.mem_of_find?_eq_some heq), rfl⟩

theorem AccountsOk.accountLogin (h : AccountsOk s) (name password : Option (List UInt8)) :
    AccountsOk (Fs.accountLogin s name password).2 := by
  cases name with
  | none => exact h
  | some name =>
    cases password with
    | none => exact h
    | some password =>
      cases hfind : findAccount s.database name password with
      | none =>
        rw [Fs.accountLogin, hfind]
        exact h
      | some index => exact AccountsOk.login h.limit (by rw [hfind]; rfl)

/-! ### A new record -/

/-- What lies in front of a record is not touched when it is filled in. -/
theorem createRecord_below {name password : List UInt8} {administrator : Bool} {i : ℕ}
    (hi : i < recordAt database.count) :
    createRecord database name password administrator i = database i := by
  unfold createRecord addDefault
  simp only [writeBytes]
  rw [if_neg (by omega), if_neg (by omega), if_neg (by omega)]

theorem setCount_above {n i : ℕ} (hi : 16 ≤ i) : database.setCount n i = database i := by
  apply writeBytes_of_outside
  exact .inr hi

theorem count_setCount {n : ℕ} (hn : n < 2 ^ 32) : (database.setCount n).count = n :=
  loadWord_storeWord hn

/-- An older record keeps its flags. -/
theorem isAdministrator_congr {database' : AccountDatabase} {index : ℕ}
    (h : ∀ i, 16 ≤ i → i < recordAt (index + 1) → database' i = database i) :
    isAdministrator database' index = isAdministrator database index := by
  unfold isAdministrator flags loadWord
  rw [readBytes_congr]
  intro i hi
  apply h
  · omega
  · unfold recordAt accountRecordSize
    omega

theorem AccountsOk.accountCreate (h : AccountsOk s) (name : List UInt8)
    (password : Option (List UInt8)) (administrator : Bool) :
    AccountsOk (Fs.accountCreate s name password administrator).2 := by
  unfold Fs.accountCreate
  split
  · exact h
  rename_i password
  split
  · exact h
  rename_i hchecks
  split
  · exact h
  obtain ⟨index, hindex, hlt, hpriv⟩ := h.current
  have hcount : s.database.count < accountMax := by
    apply Nat.lt_of_not_le
    intro hle
    exact hchecks (.inr (.inr (.inr hle)))
  have hsmall : accountMax < 2 ^ 32 := by decide
  -- the record of the account logged in lies below the new one
  have hkept : ∀ n, ∀ d : AccountDatabase, (∀ i, 16 ≤ i → i < recordAt (index + 1) →
      d i = s.database i) → isAdministrator (d.setCount n) index = isAdministrator s.database index := by
    intro n d hd
    apply isAdministrator_congr
    intro i hlow hhigh
    rw [setCount_above hlow]
    exact hd i hlow hhigh
  have hrecord : ∀ i, 16 ≤ i → i < recordAt (index + 1) →
      createRecord s.database name password administrator i = s.database i := by
    intro i _ hi
    apply createRecord_below
    exact Nat.lt_of_lt_of_le hi (Nat.add_le_add_left (Nat.mul_le_mul_right accountRecordSize hlt) 16)
  have hsave := saveDatabase_privileged
    ((createRecord s.database name password administrator).setCount (s.database.count + 1)) s.volume
  simp only
  split
  · rename_i v₁ heq
    rw [heq] at hsave
    refine ⟨?_, index, hindex, ?_, ?_⟩
    · rw [count_setCount (by omega)]
      exact hcount
    · rw [count_setCount (by omega)]
      exact Nat.lt_succ_of_lt hlt
    · exact hsave.trans (hpriv.trans (hkept _ _ hrecord).symm)
  · rename_i v₁ heq
    rw [heq] at hsave
    refine ⟨?_, index, hindex, ?_, ?_⟩
    · rw [count_setCount (by omega)]
      exact h.limit
    · rw [count_setCount (by omega)]
      exact hlt
    · refine hsave.trans (hpriv.trans (hkept _ _ ?_).symm)
      intro i hlow hhigh
      rw [setCount_above hlow]
      exact hrecord i hlow hhigh

theorem AccountsOk.step (h : AccountsOk s) (c : AccountCall) : AccountsOk (s.step c) := by
  cases c with
  | login name password => exact h.accountLogin name password
  | create name password administrator => exact h.accountCreate name password administrator

/-! ### The start -/

theorem count_of_valid {contents : List UInt8} (h : validDatabase contents = true) :
    AccountDatabase.count (writeBytes database 0 contents) ≤ accountMax := by
  unfold validDatabase at h
  simp only [Bool.and_eq_true, beq_iff_eq, decide_eq_true_eq] at h
  obtain ⟨⟨⟨⟨hlength, -⟩, -⟩, -⟩, hcount⟩ := h
  have hread : readBytes (writeBytes database 0 contents) (0 + 12) 4 = (contents.drop 12).take 4 := by
    have hinside : 12 + 4 ≤ contents.length := by
      rw [hlength]
      decide
    rw [← take_drop_readBytes hinside, readBytes_writeBytes_self]
  rw [AccountDatabase.count, loadWord, hread]
  exact hcount

theorem writeBytes_agree {contents contents' : ℕ → UInt8} {n offset : ℕ} {data : List UInt8}
    (h : ∀ i, i < n → contents i = contents' i) :
    ∀ i, i < n → writeBytes contents offset data i = writeBytes contents' offset data i := by
  intro i hi
  rw [writeBytes, writeBytes, h i hi]

section

variable (database : AccountDatabase)

/-- Nothing of the memory before is left in the default database. -/
theorem defaultDatabase_agree :
    ∀ i, i < databaseSize → defaultDatabase database i = defaultDatabase (fun _ => 0) i := by
  have hzero : ∀ i, i < databaseSize → writeBytes database 0 (List.replicate databaseSize 0) i =
      writeBytes (fun _ => 0) 0 (List.replicate databaseSize 0) i := by
    intro i hi
    have hinside : 0 ≤ i ∧ i < 0 + (List.replicate databaseSize (0 : UInt8)).length := by
      rw [List.length_replicate, Nat.zero_add]
      exact ⟨Nat.zero_le i, hi⟩
    rw [writeBytes, writeBytes, if_pos hinside, if_pos hinside]
  exact writeBytes_agree (writeBytes_agree (writeBytes_agree (writeBytes_agree
    (writeBytes_agree hzero))))

theorem readBytes_default {offset size : ℕ}
    (h : offset + size ≤ databaseSize) :
    readBytes (defaultDatabase database) offset size =
      readBytes (defaultDatabase fun _ => 0) offset size := by
  apply readBytes_congr
  intro i hi
  exact defaultDatabase_agree database (offset + i) (by omega)

theorem count_default : (defaultDatabase database).count = 2 := by
  unfold AccountDatabase.count loadWord
  rw [readBytes_default database (by decide)]
  decide +kernel

/-- The desktop user is the second account of the default database. -/
theorem findAccount_default :
    (findAccount (defaultDatabase database) desktopName []).isSome = true := by
  rw [findAccount, List.find?_isSome]
  refine ⟨1, ?_, ?_⟩
  · rw [count_default]
    decide
  · unfold named AccountDatabase.passwordHash salt loadWord
    rw [readBytes_default database (by decide), readBytes_default database (by decide),
      readBytes_default database (by decide)]
    decide +kernel

end

/-- Without the desktop user nobody is logged in, under the root identity. -/
theorem accountInit_of_not {database : AccountDatabase} {v : Volume}
    (h : ¬ DesktopAccount database v) : ¬ AdminOnly (accountInit ⟨database, none, v⟩).2 := by
  unfold DesktopAccount at h
  simp only at h
  unfold accountInit
  by_cases hvalid : validDatabase ((fsRead (fsSetIdentity v 0 true) usersDb databaseSize).getD []) = true
  · rw [if_pos hvalid] at h ⊢
    have hnone := Option.not_isSome_iff_eq_none.1 h
    rw [accountLogin]
    simp only [hnone]
    intro honly
    exact Bool.noConfusion (honly rfl)
  · rw [if_neg hvalid] at h ⊢
    have hsave := saveDatabase_privileged (defaultDatabase database) (fsSetIdentity v 0 true)
    split
    · rename_i v₁ heq
      rw [heq] at hsave
      intro honly
      exact Bool.noConfusion (honly hsave)
    · rename_i v₁ heq
      exact absurd ((saveDatabase_iff rfl (defaultDatabase database)).1 (congrArg Prod.fst heq)) h

theorem AccountsOk.accountInit {database : AccountDatabase} {v : Volume}
    (h : DesktopAccount database v) : AccountsOk (Fs.accountInit ⟨database, none, v⟩).2 := by
  unfold DesktopAccount at h
  simp only at h
  unfold Fs.accountInit
  by_cases hvalid : validDatabase ((fsRead (fsSetIdentity v 0 true) usersDb databaseSize).getD []) = true
  · rw [if_pos hvalid] at h ⊢
    exact AccountsOk.login (count_of_valid hvalid) h
  · rw [if_neg hvalid] at h ⊢
    split
    · rename_i v₁ heq
      have hsaved := (saveDatabase_iff rfl (defaultDatabase database)).2 h
      exact absurd ((congrArg Prod.fst heq).symm.trans hsaved) Bool.false_ne_true
    · refine AccountsOk.login ?_ (findAccount_default database)
      rw [count_default]
      decide

/-- Whatever the volume holds and whatever is called after `account_init`: the identity is privileged
after a call only while an administrator is logged in, exactly when the login that ends
`account_init` is reached and finds the account of the desktop user. -/
theorem privileged_only_admin_iff (database : AccountDatabase) (v : Volume) (calls : List AccountCall) :
    (AdminOnly (accountInit ⟨database, none, v⟩).2 ∧
      Along Accounts.step (fun s c => AdminOnly (s.step c)) (accountInit ⟨database, none, v⟩).2 calls) ↔
      DesktopAccount database v := by
  constructor
  · intro h
    by_contra hnot
    exact accountInit_of_not hnot h.1
  · intro h
    have hstart := AccountsOk.accountInit h
    exact ⟨hstart.adminOnly,
      Along.of_invariant (fun _ c hs => hs.step c) (fun _ c hs => (hs.step c).adminOnly) hstart calls⟩

/-- A volume whose `users.db` has a good header and empty records. -/
def emptyAccounts : Volume where
  entries index := if index = 0 then ⟨true, .file, 0o600, 0, usersDb, 4608, 400, 1, 0⟩ else FsEntry.zero
  disk lba :=
    if lba = 4608 then writeBytes (fun _ => 0) 0 (accountMagic ++ leBytes 4 1 ++ leBytes 4 2)
    else fun _ => 0
  totalSectors := 5000
  mounted := true
  currentUid := 0
  currentPrivileged := true

/-- `account_init` reports the failure and leaves the root identity, with nobody logged in. -/
theorem emptyAccounts_privileged :
    (accountInit ⟨fun _ => 0, none, emptyAccounts⟩).1 = false ∧
      ¬ AdminOnly (accountInit ⟨fun _ => 0, none, emptyAccounts⟩).2 := by
  decide +kernel

end NovaOS.Fs
