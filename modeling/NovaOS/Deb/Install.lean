import NovaOS.Deb.Format

/-!
# What an installation leaves

`installed` is the map of files after a list of items was installed: the items, the directories that
lead to them, and everything else as it was.  The installer goes through the list with enough slots
and sectors left for the rest of it (`Stage`), one entry at a time (`Stage.installEntry`).

* **`package_installs_iff`** — a package is installed with all its items if and only if none of them
  is the directory `.` and the sizes of its members have at most ten digits;
* `dot_directory_refused` — a package with the directory `.`.
-/

namespace NovaOS.Deb

open Fs Function List Nat

/-! ### Paths that lead to a path -/

/-- What comes before the slashes of `rest`, behind `before`. -/
def prefixesFrom : Name → List UInt8 → List Name
  | _, [] => []
  | before, c :: rest =>
    if c = slash then before :: prefixesFrom (before ++ [c]) rest else prefixesFrom (before ++ [c]) rest

/-- The paths that lead to a path. -/
def prefixes (path : Name) : List Name := prefixesFrom [] path

theorem mem_prefixesFrom {before rest p : Name} :
    p ∈ prefixesFrom before rest ↔ ∃ a b, rest = a ++ slash :: b ∧ p = before ++ a := by
  induction rest generalizing before with
  | nil =>
    refine ⟨nofun, fun ⟨a, b, hrest, _⟩ => ?_⟩
    exact absurd hrest.symm (append_ne_nil_of_right_ne_nil a (cons_ne_nil slash b))
  | cons c rest ih =>
    have hstep : p ∈ prefixesFrom (before ++ [c]) rest ↔
        ∃ a b, c :: rest = (c :: a) ++ slash :: b ∧ p = before ++ (c :: a) := by
      rw [ih]
      simp only [cons_append, List.cons.injEq, true_and, append_assoc, nil_append]
    rw [prefixesFrom]
    by_cases hc : c = slash
    · rw [if_pos hc, mem_cons, hstep]
      constructor
      · rintro (rfl | ⟨a, b, hrest, rfl⟩)
        · exact ⟨[], rest, by rw [hc]; rfl, (append_nil _).symm⟩
        · exact ⟨c :: a, b, hrest, rfl⟩
      · rintro ⟨a, b, hrest, rfl⟩
        cases a with
        | nil => exact .inl (append_nil _)
        | cons d a =>
          cases hrest
          exact .inr ⟨a, b, rfl, rfl⟩
    · rw [if_neg hc, hstep]
      constructor
      · rintro ⟨a, b, hrest, rfl⟩
        exact ⟨c :: a, b, hrest, rfl⟩
      · rintro ⟨a, b, hrest, rfl⟩
        cases a with
        | nil => exact absurd (List.cons.inj hrest).1 hc
        | cons d a =>
          cases hrest
          exact ⟨a, b, rfl, rfl⟩

theorem mem_prefixes {path p : Name} : p ∈ prefixes path ↔ ∃ rest, path = p ++ slash :: rest := by
  rw [prefixes, mem_prefixesFrom]
  constructor
  · rintro ⟨a, b, rfl, rfl⟩
    exact ⟨b, rfl⟩
  · rintro ⟨rest, rfl⟩
    exact ⟨p, rest, rfl, rfl⟩

theorem ne_of_mem_prefixes {path p : Name} (h : p ∈ prefixes path) : p ≠ path := by
  obtain ⟨rest, rfl⟩ := mem_prefixes.1 h
  intro heq
  have hlength := congrArg List.length heq
  rw [length_append, length_cons] at hlength
  omega

/-! ### The map of files -/

/-- A directory that the installer makes. -/
def dirNode (uid : ℕ) : Node := ⟨.directory, 0o755, uid, []⟩

/-- What an item becomes. -/
def Item.node (uid : ℕ) (item : Item) : Node :=
  match item.content with
  | .directory => dirNode uid
  | .file bytes => ⟨.file, 0o660, uid, bytes⟩
  | .symlink target => ⟨.symlink, 0o777, uid, target⟩

/-- The sectors an item takes. -/
def Item.sectors (item : Item) : ℕ :=
  match item.content with
  | .directory => 0
  | .file bytes => sectorsOf bytes.length
  | .symlink target => sectorsOf target.length

/-- The map with the missing ones of some paths made directories. -/
def withParents (uid : ℕ) (files : Files) (paths : List Name) : Files := fun name =>
  if files name = none ∧ name ∈ paths then some (dirNode uid) else files name

/-- The map after the items were installed. -/
def installed (uid : ℕ) (files : Files) (items : List Item) : Files := fun name =>
  match items.find? fun item => item.path == name with
  | some item => some (item.node uid)
  | none => withParents uid files (items.flatMap fun item => prefixes item.path) name

/-- The number of files, directories and links. -/
def counts (items : List Item) : DebInstallResult where
  files := items.countP fun item => item.content.typeFlag == 48
  directories := items.countP fun item => item.content.typeFlag == 53
  symlinks := items.countP fun item => item.content.typeFlag == 50

/-- The counts with one more item. -/
def DebInstallResult.add (result : DebInstallResult) (item : Item) : DebInstallResult :=
  match item.content with
  | .directory => { result with directories := result.directories + 1 }
  | .file _ => { result with files := result.files + 1 }
  | .symlink _ => { result with symlinks := result.symlinks + 1 }

theorem counts_concat (items : List Item) (item : Item) :
    counts (items ++ [item]) = (counts items).add item := by
  simp only [counts, countP_append, countP_singleton, DebInstallResult.add]
  cases item.content <;> rfl

/-- The paths of the items and the paths that lead to them. -/
def namesOf (items : List Item) : Finset Name :=
  (items.flatMap fun item => item.path :: prefixes item.path).toFinset

/-- Items with distinct paths in normal form, none of which exists, below nothing but directories. -/
structure Installable (files : Files) (items : List Item) : Prop where
  distinct : items.Pairwise fun item other => item.path ≠ other.path
  normal : ∀ item ∈ items, NormalPath item.path
  targets : ∀ item ∈ items, ∀ target, item.content = .symlink target → NormalTarget target
  inner : ∀ item ∈ items, ∀ other ∈ items, other.path ∈ prefixes item.path →
    other.content = .directory
  new : ∀ item ∈ items, files item.path = none
  existing : ∀ item ∈ items, ∀ p ∈ prefixes item.path, ∀ node, files p = some node →
    node.type = .directory

section

variable {uid : ℕ} {files : Files} {items done : List Item} {item : Item} {p : Name} {node : Node}

theorem withParents_some (h : files p = some node) (paths : List Name) :
    withParents uid files paths p = some node := by
  have hnot : ¬(files p = none ∧ p ∈ paths) := fun hnone => nomatch h.symm.trans hnone.1
  rw [withParents, if_neg hnot, h]

theorem withParents_cons_some (h : files p = some node) (paths : List Name) :
    withParents uid files (p :: paths) = withParents uid files paths := by
  funext name
  by_cases hname : name = p
  · rw [hname, withParents_some h, withParents_some h]
  · rw [withParents, withParents]
    simp only [mem_cons, hname, false_or]

theorem withParents_cons_none (h : files p = none) (paths : List Name) :
    withParents uid files (p :: paths) =
      withParents uid (files.set p (some (dirNode uid))) paths := by
  funext name
  by_cases hname : name = p
  · have hset : files.set p (some (dirNode uid)) p = some (dirNode uid) := update_self ..
    rw [hname, withParents_some hset, withParents, if_pos ⟨h, mem_cons_self⟩]
  · have hset : files.set p (some (dirNode uid)) name = files name := update_of_ne hname ..
    rw [withParents, withParents, hset]
    simp only [mem_cons, hname, false_or]

/-- Only directories lead to an item, also while the list is being installed. -/
theorem Installable.directory_of_prefix (h : Installable files items) (hdone : done ⊆ items)
    (hitem : item ∈ items) (hp : p ∈ prefixes item.path) (hnode : installed uid files done p = some node) :
    node.type = .directory := by
  rw [installed] at hnode
  cases hfind : done.find? fun other => other.path == p with
  | some other =>
    have hother := mem_of_find?_eq_some hfind
    have hpath := List.find?_some hfind
    rw [beq_iff_eq] at hpath
    rw [hfind] at hnode
    cases hnode
    rw [Item.node, h.inner item hitem other (hdone hother) (hpath ▸ hp)]
    rfl
  | none =>
    rw [hfind] at hnode
    simp only [withParents] at hnode
    split at hnode
    · cases hnode
      rfl
    · exact h.existing item hitem p hp node hnode

/-- The path of an item whose turn comes is new, or a directory that leads to another item. -/
theorem Installable.before_item (uid : ℕ) (h : Installable files (done ++ item :: items)) :
    installed uid files done item.path = none ∨
      installed uid files done item.path = some (dirNode uid) ∧ item.content = .directory := by
  have hmem : item ∈ done ++ item :: items := mem_append_right _ mem_cons_self
  have hfind : (done.find? fun other => other.path == item.path) = none := by
    rw [List.find?_eq_none]
    intro other hother
    rw [beq_iff_eq]
    exact (pairwise_append.1 h.distinct).2.2 other hother item mem_cons_self
  rw [installed, hfind]
  simp only [withParents]
  split
  · next hparent =>
    obtain ⟨other, hother, hp⟩ := mem_flatMap.1 hparent.2
    exact .inr ⟨rfl, h.inner other (mem_append_left _ hother) item hmem hp⟩
  · exact .inl (h.new item hmem)

theorem Installable.installed_concat (h : Installable files (done ++ item :: items)) :
    installed uid files (done ++ [item]) =
      (withParents uid (installed uid files done) (prefixes item.path)).set item.path
        (some (item.node uid)) := by
  funext name
  by_cases hname : name = item.path
  · have hfind : (done.find? fun other => other.path == name) = none := by
      rw [List.find?_eq_none]
      intro other hother
      rw [beq_iff_eq, hname]
      exact (pairwise_append.1 h.distinct).2.2 other hother item mem_cons_self
    rw [installed, List.find?_append, hfind, Option.none_or, List.find?_singleton, hname,
      beq_self_eq_true, Files.set, update_self]
    rfl
  · rw [Files.set, update_of_ne hname, installed, List.find?_append, List.find?_singleton,
      beq_eq_false_iff_ne.2 (Ne.symm hname)]
    cases hfind : done.find? fun other => other.path == name with
    | some other =>
      have hsome : installed uid files done name = some (other.node uid) := by
        rw [installed, hfind]
      rw [withParents_some hsome]
      rfl
    | none =>
      have hnone : installed uid files done name =
          withParents uid files (done.flatMap fun item => prefixes item.path) name := by
        rw [installed, hfind]
      simp only [withParents, flatMap_append, flatMap_singleton, mem_append,
        Bool.false_eq_true, if_false, Option.or_none] at hnone ⊢
      rw [hnone]
      by_cases hfiles : files name = none
      · by_cases hdone : name ∈ done.flatMap fun item => prefixes item.path
        · simp only [hfiles, hdone, true_and, true_or, if_true, reduceCtorEq, false_and, if_false]
        · simp only [hfiles, hdone, true_and, false_or, if_false]
      · simp only [hfiles, false_and, if_false]

end

/-! ### Stages of an installation -/

/-- The names that are not there yet. -/
def missing (names : Finset Name) (files : Files) : Finset Name := names.filter fun n => files n = none

/-- The volume holds these files, with slots for the names that are missing and some sectors. -/
structure Stage (names : Finset Name) (uid : ℕ) (v : Volume) (files : Files) (sectors : ℕ) : Prop where
  ok : VolumeOk v
  same : filesOf v = files
  user : v.currentUid = uid
  room : Room v (missing names files).card sectors

section

variable {names : Finset Name} {uid sectors k : ℕ} {v v' : Volume} {files : Files} {p : Name}
  {node : Node}

theorem card_missing_set (hp : p ∈ names) (hnew : files p = none) (node : Node) :
    (missing names files).card = (missing names (files.set p (some node))).card + 1 := by
  have herase : missing names (files.set p (some node)) = (missing names files).erase p := by
    ext n
    rw [missing, missing, Finset.mem_erase, Finset.mem_filter, Finset.mem_filter]
    by_cases hn : n = p
    · rw [hn, Files.set, update_self]
      exact ⟨fun h => (by cases h.2), fun h => absurd rfl h.1⟩
    · rw [Files.set, update_of_ne hn]
      exact ⟨fun h => ⟨hn, h⟩, fun h => h.2⟩
  rw [herase, Finset.card_erase_add_one]
  exact Finset.mem_filter.2 ⟨hp, hnew⟩

theorem Stage.room_new (h : Stage names uid v files sectors) (hp : p ∈ names) (hnew : files p = none)
    (node : Node) : Room v ((missing names (files.set p (some node))).card + 1) sectors := by
  rw [← card_missing_set hp hnew node]
  exact h.room

theorem Stage.after (h : Stage names uid v files (sectors + k)) (hp : p ∈ names) (hnew : files p = none)
    (hrefines : Refines v v' (files.set p (some node))) (hconsumes : Consumes v v' 1 k) :
    Stage names uid v' (files.set p (some node)) sectors where
  ok := hrefines.ok
  same := hrefines.files
  user := hrefines.uid.trans h.user
  room := (h.room_new hp hnew node).after hconsumes

theorem Stage.pathInfo (h : Stage names uid v files sectors) (hvalid : validName p = true) :
    fsPathInfo v p false =
      (files p).map fun node => ⟨p, node.bytes.length, node.shownMode, node.owner, node.type⟩ := by
  rw [h.ok.fsPathInfo_eq, Files.pathInfo, hvalid, h.same]
  rfl

theorem Stage.mkdir (h : Stage names uid v files sectors) (hp : p ∈ names) (hvalid : validName p = true)
    (hnew : files p = none) (hparent : files.hasParent p = true) :
    ∃ v', fsMkdir v p 0o755 = (true, v') ∧
      Stage names uid v' (files.set p (some (dirNode uid))) sectors := by
  obtain ⟨v', hcall, hrefines, hconsumes⟩ := h.ok.fsMkdir_new (h.room_new hp hnew (dirNode uid)) hvalid
    (by rw [h.same]; exact hnew) (by rw [h.same]; exact hparent) (show 0o755 ≤ 0o777 by decide)
  rw [h.same, h.user] at hrefines
  exact ⟨v', hcall, Stage.after (k := 0) h hp hnew hrefines hconsumes⟩

theorem Stage.write {bytes : List UInt8}
    (h : Stage names uid v files (sectors + sectorsOf bytes.length)) (hp : p ∈ names)
    (hvalid : validName p = true) (hnew : files p = none) (hparent : files.hasParent p = true) :
    ∃ v', fsWrite v p bytes = (true, v') ∧
      Stage names uid v' (files.set p (some ⟨.file, 0o660, uid, bytes⟩)) sectors := by
  obtain ⟨v', hcall, hrefines, hconsumes⟩ := h.ok.fsWrite_new
    (h.room_new hp hnew ⟨.file, 0o660, uid, bytes⟩) hvalid (by rw [h.same]; exact hnew)
    (by rw [h.same]; exact hparent)
  rw [h.same, h.user] at hrefines
  exact ⟨v', hcall, h.after hp hnew hrefines hconsumes⟩

theorem Stage.symlink {target : Name}
    (h : Stage names uid v files (sectors + sectorsOf target.length)) (hp : p ∈ names)
    (htarget : validSymlinkTarget target = true) (hvalid : validName p = true) (hnew : files p = none)
    (hparent : files.hasParent p = true) :
    ∃ v', fsSymlink v target p = (true, v') ∧
      Stage names uid v' (files.set p (some ⟨.symlink, 0o777, uid, target⟩)) sectors := by
  obtain ⟨v', hcall, hrefines, hconsumes⟩ := h.ok.fsSymlink_new
    (h.room_new hp hnew ⟨.symlink, 0o777, uid, target⟩) htarget hvalid (by rw [h.same]; exact hnew)
    (by rw [h.same]; exact hparent)
  rw [h.same, h.user] at hrefines
  exact ⟨v', hcall, h.after hp hnew hrefines hconsumes⟩

/-- Every path that leads to `path` is a directory. -/
def Led (files : Files) (path : Name) : Prop :=
  ∀ p ∈ prefixes path, ∃ node, files p = some node ∧ node.type = .directory

theorem Led.hasParent (h : Led files p) (hvalid : validName p = true) : files.hasParent p = true := by
  cases hlast : lastSlash p with
  | none => exact hasParent_of_no_slash files (lastSlash_eq_none.1 hlast)
  | some k =>
    obtain ⟨base, hbase, hsplit⟩ := lastSlash_eq_some hlast
    rw [hsplit] at hvalid ⊢
    exact (hasParent_split hbase hvalid).2 (h _ (mem_prefixes.2 ⟨base, hsplit⟩))

theorem prefixes_concat (path : Name) (c : UInt8) (h : p ∈ prefixes (path ++ [c])) :
    p ∈ prefixes path ∨ c = slash ∧ p = path := by
  obtain ⟨rest, hrest⟩ := mem_prefixes.1 h
  induction rest using List.reverseRecOn with
  | nil =>
    obtain ⟨hpath, hc⟩ := append_inj' hrest rfl
    exact .inr ⟨(List.cons.inj hc).1, hpath.symm⟩
  | append_singleton rest last _ =>
    rw [← cons_append, ← append_assoc] at hrest
    obtain ⟨hpath, -⟩ := append_inj' hrest rfl
    exact .inl (mem_prefixes.2 ⟨rest, hpath⟩)

/-- **`ensure_parent_directories` makes the missing directories.** -/
theorem Stage.ensureParents (before rest : Name) (h : Stage names uid v files sectors)
    (hvalid : validName (before ++ rest) = true) (hled : Led files before)
    (hpaths : ∀ p ∈ prefixesFrom before rest, p ∈ names ∧
      ∀ node, files p = some node → node.type = .directory) :
    ∃ v', ensureParents before rest v = (true, v') ∧
      Stage names uid v' (withParents uid files (prefixesFrom before rest)) sectors ∧
      Led (withParents uid files (prefixesFrom before rest)) (before ++ rest) := by
  induction rest generalizing before v files with
  | nil =>
    have hnone : withParents uid files (prefixesFrom before []) = files := by
      funext n
      exact if_neg fun hn => nomatch hn.2
    rw [hnone, append_nil]
    exact ⟨v, rfl, h, hled⟩
  | cons c rest ih =>
    have hsplit : before ++ c :: rest = before ++ [c] ++ rest := by
      rw [append_assoc, singleton_append]
    rw [Deb.ensureParents]
    by_cases hc : c = slash
    · subst hc
      have hfrom : prefixesFrom before (slash :: rest) =
          before :: prefixesFrom (before ++ [slash]) rest := if_pos rfl
      have hbefore : validName before = true := validName_prefix hvalid
      rw [hfrom, forall_mem_cons] at hpaths
      rw [hsplit] at hvalid
      rw [hfrom, hsplit, h.pathInfo hbefore]
      cases hfiles : files before with
      | some node =>
        have hled' : Led files (before ++ [slash]) := by
          intro p hp
          rcases prefixes_concat before slash hp with hp | ⟨-, rfl⟩
          · exact hled p hp
          · exact ⟨node, hfiles, hpaths.1.2 node hfiles⟩
        simp only [Option.map_some]
        rw [if_neg (not_not.2 (hpaths.1.2 node hfiles)), withParents_cons_some hfiles]
        exact ih (before ++ [slash]) h hvalid hled' hpaths.2
      | none =>
        obtain ⟨v₁, hmkdir, h₁⟩ := h.mkdir hpaths.1.1 hbefore hfiles (hled.hasParent hbefore)
        have hself : files.set before (some (dirNode uid)) before = some (dirNode uid) :=
          update_self ..
        have hothers : ∀ p, p ≠ before → files.set before (some (dirNode uid)) p = files p :=
          fun p hp => update_of_ne hp ..
        have hled' : Led (files.set before (some (dirNode uid))) (before ++ [slash]) := by
          intro p hp
          rcases prefixes_concat before slash hp with hp | ⟨-, rfl⟩
          · rw [hothers p (ne_of_mem_prefixes hp)]
            exact hled p hp
          · exact ⟨dirNode uid, hself, rfl⟩
        simp only [Option.map_none, hmkdir]
        rw [withParents_cons_none hfiles]
        refine ih (before ++ [slash]) h₁ hvalid hled' fun p hp => ⟨(hpaths.2 p hp).1, ?_⟩
        intro node hnode
        by_cases hpb : p = before
        · rw [hpb, hself] at hnode
          cases hnode
          rfl
        · rw [hothers p hpb] at hnode
          exact (hpaths.2 p hp).2 node hnode
    · rw [if_pos hc]
      have hfrom : prefixesFrom before (c :: rest) = prefixesFrom (before ++ [c]) rest := if_neg hc
      rw [hfrom] at hpaths ⊢
      rw [hsplit] at hvalid ⊢
      refine ih (before ++ [c]) h hvalid ?_ hpaths
      intro p hp
      rcases prefixes_concat before c hp with hp | hp
      · exact hled p hp
      · exact absurd hp.1 hc

/-! ### One entry -/

/-- The directory `.`, of whose name nothing is left. -/
def Item.IsDot (item : Item) : Prop := item.path = [dot] ∧ item.content = .directory

instance (item : Item) : Decidable item.IsDot :=
  inferInstanceAs (Decidable (item.path = [dot] ∧ item.content = .directory))

/-- An item as the writer can pack it. -/
structure Item.Ok (item : Item) : Prop where
  normal : NormalPath item.path
  target : ∀ target, item.content = .symlink target → NormalTarget target
  size : item.content.data.length < 8 ^ 11

variable {item : Item} {metadata : TarMetadata}

theorem normalPath_nonzero (h : NormalPath p) : ∀ c ∈ p, c ≠ 0 := by
  rintro c hc rfl
  exact absurd (validName_printable h.valid 0 hc).1 (by decide)

theorem Item.Ok.tarName_nonzero (h : item.Ok) : ∀ c ∈ item.tarName, c ≠ 0 := by
  intro c hc
  rw [Item.tarName] at hc
  cases hcontent : item.content with
  | directory =>
    rw [hcontent] at hc
    rcases mem_append.1 hc with hc | hc
    · exact normalPath_nonzero h.normal c hc
    · rw [mem_singleton.1 hc]
      decide
  | file bytes =>
    rw [hcontent] at hc
    exact normalPath_nonzero h.normal c hc
  | symlink target =>
    rw [hcontent] at hc
    exact normalPath_nonzero h.normal c hc

theorem Item.Ok.linkName_nonzero (h : item.Ok) : ∀ c ∈ item.content.linkName, c ≠ 0 := by
  cases hcontent : item.content with
  | directory => exact nofun
  | file bytes => exact nofun
  | symlink target =>
    intro c hc
    rcases h.target target hcontent with hnormal | ⟨path, hnormal, rfl⟩
    · exact normalPath_nonzero hnormal c hc
    · rcases mem_cons.1 hc with rfl | hc
      · decide
      · exact normalPath_nonzero hnormal c hc

theorem Item.Ok.fits (h : item.Ok) : item.Fits := by
  have hpath := validName_length h.normal.valid
  refine ⟨?_, ?_, h.size⟩
  · rw [Item.tarName]
    split
    · rw [length_append, length_singleton]
      omega
    · omega
  · cases hcontent : item.content with
    | directory => exact zero_le _
    | file bytes => exact zero_le _
    | symlink target =>
      have := validSymlinkTarget_length (h.target target hcontent).valid
      show target.length ≤ 100
      omega

/-- The path the installer reads in a header. -/
theorem Item.Ok.packagePath (h : item.Ok) :
    packagePath (fieldString (tarHeader metadata item)) = if item.IsDot then none else some item.path := by
  rw [tarHeader_name h.fits h.tarName_nonzero, Item.tarName]
  cases hcontent : item.content with
  | directory =>
    simp only [packagePath_slash h.normal, Item.IsDot, hcontent, and_true]
  | file bytes =>
    rw [if_neg (by rw [Item.IsDot, hcontent]; exact fun h => nomatch h.2)]
    exact packagePath_normal h.normal
  | symlink target =>
    rw [if_neg (by rw [Item.IsDot, hcontent]; exact fun h => nomatch h.2)]
    exact packagePath_normal h.normal

/-- The part of a round that depends on the type. -/
theorem Stage.installContent (metadata : TarMetadata)
    (h : Stage names uid v files (sectors + item.sectors)) (hitem : item.Ok)
    (hp : item.path ∈ names) (hled : Led files item.path)
    (hbefore : files item.path = none ∨
      files item.path = some (dirNode uid) ∧ item.content = .directory) (result : DebInstallResult) :
    ∃ v', installContent (tarHeader metadata item) item.path item.content.data v result =
        (true, v', result.add item) ∧
      Stage names uid v' (files.set item.path (some (item.node uid))) sectors := by
  have hvalid := hitem.normal.valid
  have hparent := hled.hasParent hvalid
  rw [Deb.installContent]
  simp only [tarHeader_type hitem.fits, h.pathInfo hvalid]
  cases hcontent : item.content with
  | directory =>
    have hnode : item.node uid = dirNode uid := by rw [Item.node, hcontent]
    have hadd : result.add item = { result with directories := result.directories + 1 } := by
      rw [DebInstallResult.add, hcontent]
    have hsectors : item.sectors = 0 := by rw [Item.sectors, hcontent]
    rw [hsectors] at h
    rw [hnode, hadd, if_pos (by decide)]
    rcases hbefore with hnew | ⟨hold, -⟩
    · obtain ⟨v', hmkdir, h'⟩ := h.mkdir hp hvalid hnew hparent
      rw [hnew]
      simp only [Option.map_none, hmkdir]
      exact ⟨v', rfl, h'⟩
    · rw [hold]
      refine ⟨v, rfl, ?_⟩
      rw [Files.set, ← hold, update_eq_self]
      exact h
  | file bytes =>
    have hnode : item.node uid = ⟨.file, 0o660, uid, bytes⟩ := by rw [Item.node, hcontent]
    have hadd : result.add item = { result with files := result.files + 1 } := by
      rw [DebInstallResult.add, hcontent]
    have hsectors : item.sectors = sectorsOf bytes.length := by rw [Item.sectors, hcontent]
    have hnew : files item.path = none :=
      hbefore.elim id fun hdir => by cases hcontent.symm.trans hdir.2
    rw [hsectors] at h
    obtain ⟨v', hwrite, h'⟩ := h.write hp hvalid hnew hparent
    rw [hnode, hadd, show (Content.file bytes).typeFlag = 48 from rfl, if_neg (by decide),
      if_neg (by decide), if_pos (by decide), hnew]
    rw [show (Content.file bytes).data = bytes from rfl, hwrite]
    exact ⟨v', rfl, h'⟩
  | symlink target =>
    have hnode : item.node uid = ⟨.symlink, 0o777, uid, target⟩ := by rw [Item.node, hcontent]
    have hadd : result.add item = { result with symlinks := result.symlinks + 1 } := by
      rw [DebInstallResult.add, hcontent]
    have hsectors : item.sectors = sectorsOf target.length := by rw [Item.sectors, hcontent]
    have hnew : files item.path = none :=
      hbefore.elim id fun hdir => by cases hcontent.symm.trans hdir.2
    have htarget := hitem.target target hcontent
    have hlink : linkTarget (tarHeader metadata item) = some target := by
      have hname : item.content.linkName = target := by rw [hcontent]; rfl
      rw [linkTarget, tarHeader_link hitem.fits hitem.linkName_nonzero, hname]
      exact packagePath_target htarget
    rw [hsectors] at h
    obtain ⟨v', hsymlink, h'⟩ := h.symlink hp htarget.valid hvalid hnew hparent
    rw [hnode, hadd, show (Content.symlink target).typeFlag = 50 from rfl, if_neg (by decide),
      if_pos (by decide), hlink, hnew]
    simp only [Option.map_none, hsymlink]
    exact ⟨v', rfl, h'⟩

theorem Installable.item_ok {entries : List (Item × TarMetadata)} {base : Files}
    (h : Installable base (entries.map Prod.fst))
    (hsize : ∀ entry ∈ entries, entry.1.content.data.length < 8 ^ 11) :
    ∀ entry ∈ entries, entry.1.Ok := by
  intro entry hentry
  have hmem : entry.1 ∈ entries.map Prod.fst := mem_map_of_mem hentry
  exact ⟨h.normal entry.1 hmem, h.targets entry.1 hmem, hsize entry hentry⟩

theorem padded_eq (n : ℕ) : (n + 511) / 512 * 512 = n + (512 - n % 512) % 512 := by
  omega

/-- **One round of `install_tar`.** -/
theorem Stage.installEntry (metadata : TarMetadata) {base : Files} {done todo : List Item}
    (hitems : Installable base (done ++ item :: todo)) (hitem : item.Ok) (hdot : ¬item.IsDot)
    (hnames : ∀ p ∈ item.path :: prefixes item.path, p ∈ names)
    (h : Stage names uid v (installed uid base done) (sectors + item.sectors)) (rest : List UInt8)
    (result : DebInstallResult) :
    ∃ v', installEntry (tarHeader metadata item) (item.content.data ++
          (List.replicate ((512 - item.content.data.length % 512) % 512) 0 ++ rest)) v result =
        (some (item.content.data.length + (512 - item.content.data.length % 512) % 512), v',
          result.add item) ∧
      Stage names uid v' (installed uid base (done ++ [item])) sectors := by
  rw [forall_mem_cons] at hnames
  have hmem : item ∈ done ++ item :: todo := mem_append_right _ mem_cons_self
  -- The directories that lead to the item are made first.
  obtain ⟨v₁, hparents, h₁, hled⟩ := h.ensureParents [] item.path hitem.normal.valid nofun
    fun p hp => ⟨hnames.2 p hp, fun node hnode =>
      hitems.directory_of_prefix (subset_append_left done _) hmem hp hnode⟩
  have hbefore : withParents uid (installed uid base done) (prefixes item.path) item.path = none ∨
      withParents uid (installed uid base done) (prefixes item.path) item.path = some (dirNode uid) ∧
        item.content = .directory := by
    rcases hitems.before_item uid with hnone | ⟨hsome, hdirectory⟩
    · refine .inl ?_
      rw [withParents, if_neg fun hp => ne_of_mem_prefixes hp.2 rfl, hnone]
    · exact .inr ⟨withParents_some hsome _, hdirectory⟩
  obtain ⟨v₂, hcontent, h₂⟩ := h₁.installContent metadata hitem hnames.1 hled hbefore result
  refine ⟨v₂, ?_, ?_⟩
  · rw [Deb.installEntry, tarHeader_size hitem.fits, tarHeader_stored hitem.fits, hitem.packagePath,
      if_neg hdot]
    simp only [tarHeader_checksum hitem.fits, ne_eq, not_true, if_false, ensureParentDirectories,
      hparents, length_append, length_replicate, take_left, hcontent, padded_eq]
    rw [if_neg (by omega), if_neg (by omega)]
  · rw [hitems.installed_concat]
    exact h₂

/-- An entry with the name `./` ends the installation. -/
theorem installEntry_dot (hitem : item.Ok) (hdot : item.IsDot) (rest : List UInt8)
    (result : DebInstallResult) :
    installEntry (tarHeader metadata item) rest v result = (none, v, result) := by
  rw [installEntry, tarHeader_size hitem.fits, tarHeader_stored hitem.fits, hitem.packagePath,
    if_pos hdot]

/-- However a round goes, the next one is at the next entry. -/
theorem installEntry_next (hitem : item.Ok) {rest : List UInt8} {result : DebInstallResult} {padded : ℕ}
    (h : (installEntry (tarHeader metadata item) rest v result).1 = some padded) :
    padded = item.content.data.length + (512 - item.content.data.length % 512) % 512 := by
  rw [installEntry, tarHeader_size hitem.fits, tarHeader_stored hitem.fits] at h
  rw [← padded_eq]
  split at h
  · next hsize _ _ =>
    cases hsize
    split at h
    · cases h
    · split at h
      · cases h
      · split at h
        · cases h
        · split at h
          · cases h
          · simp only at h
            split at h
            · cases h
            · exact (Option.some.inj h).symm
  · cases h

/-! ### All entries -/

theorem tarEntry_append (entry : Item × TarMetadata) (rest : List UInt8) :
    tarEntry entry ++ rest = tarHeader entry.2 entry.1 ++ (entry.1.content.data ++
      (List.replicate ((512 - entry.1.content.data.length % 512) % 512) 0 ++ rest)) := by
  rw [tarEntry, append_assoc, append_assoc]

theorem installTar_entry {entry : Item × TarMetadata} (hok : entry.1.Ok) (fuel : ℕ) (rest : List UInt8)
    (result : DebInstallResult) :
    installTar (fuel + 1) (tarEntry entry ++ rest) v result =
      match installEntry (tarHeader entry.2 entry.1) (entry.1.content.data ++
        (List.replicate ((512 - entry.1.content.data.length % 512) % 512) 0 ++ rest)) v result with
      | (none, v, result) => (false, v, result)
      | (some padded, v, result) =>
        installTar fuel ((entry.1.content.data ++
          (List.replicate ((512 - entry.1.content.data.length % 512) % 512) 0 ++ rest)).drop padded) v
            result := by
  have hlength : (tarHeader entry.2 entry.1).length = 512 := length_tarHeader hok.fits
  have hname : entry.1.tarName ≠ [] := by
    have hpath : entry.1.path ≠ [] := validName_ne_nil hok.normal.valid
    rw [Item.tarName]
    split
    · exact append_ne_nil_of_left_ne_nil hpath _
    · exact hpath
  rw [tarEntry_append, installTar, take_left' hlength, drop_left' hlength,
    tarHeader_nonzero hok.tarName_nonzero hname, if_neg Bool.false_ne_true]
  exact if_neg (by rw [length_append, hlength]; omega)

theorem drop_entry (entry : Item × TarMetadata) (rest : List UInt8) :
    (entry.1.content.data ++
      (List.replicate ((512 - entry.1.content.data.length % 512) % 512) 0 ++ rest)).drop
        (entry.1.content.data.length + (512 - entry.1.content.data.length % 512) % 512) = rest := by
  rw [← append_assoc]
  apply drop_left'
  rw [length_append, length_replicate]

/-- **`install_tar` installs every entry.** -/
theorem Stage.installTar {base : Files} (todo : List (Item × TarMetadata)) (done : List Item)
    (blocks fuel : ℕ) (hfuel : todo.length < fuel)
    (hitems : Installable base (done ++ todo.map Prod.fst)) (hok : ∀ entry ∈ todo, entry.1.Ok)
    (hdot : ∀ entry ∈ todo, ¬entry.1.IsDot)
    (hnames : ∀ entry ∈ todo, ∀ p ∈ entry.1.path :: prefixes entry.1.path, p ∈ names)
    (h : Stage names uid v (installed uid base done) (todo.map fun entry => entry.1.sectors).sum) :
    ∃ v', installTar fuel (todo.flatMap tarEntry ++ List.replicate (512 * (blocks + 1)) 0) v
          (counts done) = (true, v', counts (done ++ todo.map Prod.fst)) ∧
      Stage names uid v' (installed uid base (done ++ todo.map Prod.fst)) 0 := by
  induction todo generalizing done fuel v with
  | nil =>
    obtain ⟨fuel, rfl⟩ := Nat.exists_eq_add_of_le' hfuel
    have hlength : (List.replicate (512 * (blocks + 1)) (0 : UInt8)).length = 512 * (blocks + 1) :=
      length_replicate
    have hzero : allZero ((List.replicate (512 * (blocks + 1)) (0 : UInt8)).take 512) = true := by
      rw [take_replicate, allZero, all_eq_true]
      intro c hc
      rw [eq_of_mem_replicate hc]
      rfl
    rw [flatMap_nil, nil_append, map_nil, append_nil]
    refine ⟨v, ?_, h⟩
    rw [show fuel + (([] : List (Item × TarMetadata)).length + 1) = fuel + 1 from rfl, Deb.installTar,
      hlength, if_neg (by omega), if_pos hzero]
  | cons entry todo ih =>
    rw [forall_mem_cons] at hok hdot hnames
    rw [map_cons, sum_cons, add_comm] at h
    obtain ⟨fuel, rfl⟩ := Nat.exists_eq_add_of_le' hfuel
    rw [map_cons] at hitems ⊢
    obtain ⟨v₁, hentry, h₁⟩ := h.installEntry entry.2 hitems hok.1 hdot.1 hnames.1
      (todo.flatMap tarEntry ++ List.replicate (512 * (blocks + 1)) 0) (counts done)
    have hsplit : done ++ entry.1 :: todo.map Prod.fst = (done ++ [entry.1]) ++ todo.map Prod.fst := by
      rw [append_assoc, singleton_append]
    rw [hsplit] at hitems
    obtain ⟨v₂, hrest, h₂⟩ := ih (done ++ [entry.1]) (fuel + (todo.length + 1)) (by omega) hitems hok.2
      hdot.2 hnames.2 h₁
    refine ⟨v₂, ?_, hsplit ▸ h₂⟩
    rw [flatMap_cons, append_assoc, length_cons,
      show fuel + (todo.length + 1 + 1) = fuel + (todo.length + 1) + 1 from rfl,
      installTar_entry hok.1, hentry]
    simp only [drop_entry]
    rw [← counts_concat, hrest, hsplit]

/-- The directory `.` ends the installation, whatever comes before it. -/
theorem installTar_dot (todo : List (Item × TarMetadata)) (rest : List UInt8) (fuel : ℕ)
    (result : DebInstallResult) (hok : ∀ entry ∈ todo, entry.1.Ok)
    (hdot : ∃ entry ∈ todo, entry.1.IsDot) :
    (installTar fuel (todo.flatMap tarEntry ++ rest) v result).1 = false := by
  induction todo generalizing fuel v result with
  | nil =>
    obtain ⟨_, hmem, -⟩ := hdot
    cases hmem
  | cons entry todo ih =>
    cases fuel with
    | zero => rfl
    | succ fuel =>
      rw [forall_mem_cons] at hok
      rw [flatMap_cons, append_assoc, installTar_entry hok.1]
      by_cases hentry : entry.1.IsDot
      · rw [installEntry_dot hok.1 hentry]
      · obtain ⟨other, hother, hisDot⟩ := hdot
        have hlater : ∃ entry ∈ todo, entry.1.IsDot := by
          rcases mem_cons.1 hother with rfl | hother
          · exact absurd hisDot hentry
          · exact ⟨other, hother, hisDot⟩
        split
        · rfl
        · next padded v₁ result₁ hround =>
          rw [installEntry_next hok.1 (congrArg Prod.fst hround), drop_entry]
          exact ih fuel result₁ hok.2 hlater

/-! ### The package -/

theorem findMembers_packDeb (fuel : ℕ) (control archive : List UInt8) :
    findMembers (fuel + 4) ((packDeb control archive).drop 8) false none =
      if control.length < 10 ^ 10 ∧ archive.length < 10 ^ 10 then some (true, some archive) else none := by
  have hpackage : (packDeb control archive).drop 8 = arMember debianBinary version ++
      (arMember controlTar control ++ (arMember dataTar archive ++ [])) := by
    rw [packDeb, append_assoc, append_assoc, append_nil]
    rfl
  rw [hpackage, findMembers_arMember (by decide) (fun _ => rfl) (by decide), if_pos rfl,
    if_neg fun h => h.1 rfl]
  by_cases hcontrol : control.length < 10 ^ 10
  · rw [findMembers_arMember (by decide) (fun _ => rfl) hcontrol, if_neg (by decide),
      if_neg (by decide)]
    by_cases harchive : archive.length < 10 ^ 10
    · rw [findMembers_arMember (by decide) (fun _ => rfl) harchive, if_neg (by decide),
        if_pos (by decide), if_pos ⟨hcontrol, harchive⟩]
      rfl
    · rw [findMembers_large (by decide) (not_lt.1 harchive), if_neg fun h => harchive h.2]
  · rw [findMembers_large (by decide) (not_lt.1 hcontrol), if_neg fun h => hcontrol h.1]

theorem debInstall_packDeb (v : Volume) (control archive : List UInt8) :
    debInstall (packDeb control archive) v =
      if control.length < 10 ^ 10 ∧ archive.length < 10 ^ 10 then
        match installTar (archive.length + 1) archive v ⟨0, 0, 0⟩ with
        | (false, v, _) => (none, v)
        | (true, v, result) => (some result, v)
      else (none, v) := by
  have hmagic : (packDeb control archive).take 8 = arMagic := rfl
  obtain ⟨fuel, hfuel⟩ : ∃ fuel, (packDeb control archive).length = fuel + 8 := by
    exact ⟨_, add_comm _ _⟩
  have hsmall : ¬((packDeb control archive).length < 8 ∨ (packDeb control archive).take 8 ≠ arMagic) := by
    exact fun h => h.elim (by omega) fun hne => hne hmagic
  rw [debInstall, if_neg hsmall, hfuel, show fuel + 8 + 1 = fuel + 5 + 4 from rfl, findMembers_packDeb]
  by_cases hsizes : control.length < 10 ^ 10 ∧ archive.length < 10 ^ 10
  · rw [if_pos hsizes]
    exact (if_pos hsizes).symm
  · rw [if_neg hsizes, if_neg hsizes]

theorem length_le_flatMap_tarEntry {entries : List (Item × TarMetadata)}
    (hok : ∀ entry ∈ entries, entry.1.Ok) : entries.length ≤ (entries.flatMap tarEntry).length := by
  induction entries with
  | nil => exact le_refl _
  | cons entry entries ih =>
    rw [forall_mem_cons] at hok
    have hentry : 512 ≤ (tarEntry entry).length := by
      rw [tarEntry, length_append, length_append, length_tarHeader hok.1.fits]
      omega
    have hrest := ih hok.2
    rw [flatMap_cons, length_append, length_cons]
    omega

theorem installed_nil (uid : ℕ) (files : Files) : installed uid files [] = files := by
  funext name
  exact if_neg fun h => nomatch h.2

/-- **A package is installed if and only if it has no directory `.` and its sizes fit.**  Installed
means: the installer succeeds and reports the counts of the list, and the volume then has the items,
the directories that lead to them and what it had before. -/
theorem package_installs_iff (v : Volume) (entries : List (Item × TarMetadata)) (blocks : ℕ)
    (control archive : List UInt8) (hok : VolumeOk v)
    (hitems : Installable (filesOf v) (entries.map Prod.fst))
    (hroom : Room v (missing (namesOf (entries.map Prod.fst)) (filesOf v)).card
      (entries.map fun entry => entry.1.sectors).sum)
    (hpack : packTar entries blocks = some archive) :
    (∃ w, debInstall (packDeb control archive) v = (some (counts (entries.map Prod.fst)), w) ∧
        VolumeOk w ∧ filesOf w = installed v.currentUid (filesOf v) (entries.map Prod.fst)) ↔
      (∀ item ∈ entries.map Prod.fst, ¬(item.path = [dot] ∧ item.content = .directory)) ∧
        control.length < 10 ^ 10 ∧ archive.length < 10 ^ 10 := by
  rw [packTar] at hpack
  split at hpack
  · cases hpack
  · next hany =>
    have hsize : ∀ entry ∈ entries, entry.1.content.data.length < 8 ^ 11 := by
      intro entry hentry
      rw [any_eq_true, not_exists] at hany
      have hnot := hany entry
      rw [not_and, decide_eq_true_eq] at hnot
      exact Nat.lt_of_not_le (hnot hentry)
    have hitem := hitems.item_ok hsize
    rw [debInstall_packDeb]
    split
    · rename_i hsizes
      simp only [hsizes, and_true]
      cases hpack
      constructor
      · rintro ⟨w, hinstall, -, -⟩ item hmem hisDot
        -- One directory `.` makes the loop return false.
        obtain ⟨entry, hentry, rfl⟩ := mem_map.1 hmem
        have hfalse := installTar_dot (v := v) entries (List.replicate (512 * (blocks + 1)) 0)
          ((entries.flatMap tarEntry ++ List.replicate (512 * (blocks + 1)) 0).length + 1) ⟨0, 0, 0⟩ hitem
          ⟨entry, hentry, hisDot⟩
        split at hinstall
        · cases hinstall
        · next htrue =>
          rw [htrue] at hfalse
          cases hfalse
      · intro hdot
        have hlength := length_le_flatMap_tarEntry hitem
        have hstart : Stage (namesOf (entries.map Prod.fst)) v.currentUid v
            (installed v.currentUid (filesOf v) []) (entries.map fun entry => entry.1.sectors).sum := by
          rw [installed_nil]
          exact ⟨hok, rfl, rfl, hroom⟩
        obtain ⟨w, hinstall, hend⟩ := hstart.installTar entries [] blocks
          ((entries.flatMap tarEntry ++ List.replicate (512 * (blocks + 1)) 0).length + 1)
          (by rw [length_append]; omega) hitems hitem
          (fun entry hentry => hdot entry.1 (mem_map_of_mem hentry))
          fun entry hentry p hp => mem_toFinset.2
            (mem_flatMap.2 ⟨entry.1, mem_map_of_mem hentry, hp⟩)
        rw [show counts [] = ⟨0, 0, 0⟩ from rfl, nil_append] at hinstall
        rw [hinstall]
        exact ⟨w, rfl, hend.ok, hend.same⟩
    · rename_i hsizes
      exact ⟨fun ⟨_, hinstall, _⟩ => (nomatch hinstall), fun h => absurd h.2 hsizes⟩

end

/-- A header whose other fields are zero. -/
def zeroMetadata : TarMetadata where
  identity := List.replicate 24 0
  mtime := List.replicate 12 0
  tail := List.replicate 255 0
  length_identity := length_replicate
  length_mtime := length_replicate
  length_tail := length_replicate

/-- A volume that was just formatted. -/
def emptyVolume : Volume := formatted 5000 fun _ _ => 7

theorem emptyVolume_ok : VolumeOk emptyVolume ∧ filesOf emptyVolume = fun _ => none := by
  exact ⟨(formatted_ok _ (by decide) (by decide)).1, filesOf_formatted _ (by decide) (by decide)⟩

theorem emptyVolume_room {slots sectors : ℕ} (hslots : slots ≤ 1024) (hsectors : 4608 + sectors ≤ 5000) :
    Room emptyVolume slots sectors := by
  exact formatted_room _ (by decide) (by decide) hslots hsectors

/-- The directory `a`, the file `a/b` and the link `l` to `/a`. -/
def sampleItems : List Item :=
  [⟨[97], .directory⟩, ⟨[97, 47, 98], .file [1, 2, 3]⟩, ⟨[108], .symlink [47, 97]⟩]

/-- The entries of a tar archive with some items. -/
def plainEntries (items : List Item) : List (Item × TarMetadata) := items.map (·, zeroMetadata)

/-- The archive of some items with one zero block. -/
def plainArchive (items : List Item) : List UInt8 :=
  (plainEntries items).flatMap tarEntry ++ List.replicate 512 0

theorem sampleItems_installable : Installable (filesOf emptyVolume) sampleItems := by
  rw [emptyVolume_ok.2]
  refine ⟨by decide, by decide, ?_, by decide, fun _ _ => rfl, fun _ _ _ _ _ h => nomatch h⟩
  intro item hitem target htarget
  rw [sampleItems] at hitem
  simp only [mem_cons, not_mem_nil, or_false] at hitem
  rcases hitem with rfl | rfl | rfl
  · cases htarget
  · cases htarget
  · cases htarget
    exact .inr ⟨[97], by decide, rfl⟩

/-- The sample is installed on an empty volume. -/
theorem package_installs_iff_sample :
    ∃ w, debInstall (packDeb [9] (plainArchive sampleItems)) emptyVolume = (some ⟨1, 1, 1⟩, w) ∧
      VolumeOk w ∧ filesOf w = installed emptyVolume.currentUid (filesOf emptyVolume) sampleItems := by
  refine (package_installs_iff emptyVolume (plainEntries sampleItems) 0 [9] (plainArchive sampleItems)
    emptyVolume_ok.1 sampleItems_installable ?_ ?_).2 ⟨by decide, by decide, by decide +kernel⟩
  · exact emptyVolume_room (le_trans (Finset.card_filter_le ..) (by decide)) (by decide)
  · exact if_neg (by decide)

/-- The directory `.`. -/
def dotItems : List Item := [⟨[dot], .directory⟩]

/-- **A package with the directory `.` is refused**: its name in the archive is `./`, of which
`package_path` leaves nothing. -/
theorem dot_directory_refused :
    VolumeOk emptyVolume ∧ emptyVolume.currentPrivileged = true ∧
      Installable (filesOf emptyVolume) dotItems ∧
      Room emptyVolume (missing (namesOf dotItems) (filesOf emptyVolume)).card
        (dotItems.map Item.sectors).sum ∧
      packTar (plainEntries dotItems) 0 = some (plainArchive dotItems) ∧
      (debInstall (packDeb [9] (plainArchive dotItems)) emptyVolume).1 = none := by
  have hinstallable : Installable (filesOf emptyVolume) dotItems := by
    rw [emptyVolume_ok.2]
    refine ⟨by decide, by decide, ?_, by decide, fun _ _ => rfl, fun _ _ _ _ _ h => nomatch h⟩
    intro item hitem target htarget
    rw [mem_singleton.1 hitem] at htarget
    cases htarget
  have hfalse := installTar_dot (v := emptyVolume) (plainEntries dotItems) (List.replicate 512 0)
    ((plainArchive dotItems).length + 1) ⟨0, 0, 0⟩ (hinstallable.item_ok (by decide)) (by decide)
  refine ⟨emptyVolume_ok.1, ?_, hinstallable, ?_, if_neg (by decide), ?_⟩
  · exact (formatted_ok (fun _ _ => 7) (show 4608 + 128 < 5000 by decide) (by decide)).2.2
  · exact emptyVolume_room (le_trans (Finset.card_filter_le ..) (by decide)) (by decide)
  · rw [debInstall_packDeb, if_pos ⟨by decide, by decide +kernel⟩]
    split
    · rfl
    · next htrue =>
      exact absurd (hfalse.symm.trans (congrArg Prod.fst htrue)) Bool.false_ne_true

end NovaOS.Deb
