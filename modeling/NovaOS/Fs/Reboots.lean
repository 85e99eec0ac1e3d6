import NovaOS.Fs.Migration

/-!
# The files over any number of reboots

A reboot mounts the disk anew.  After a call that succeeded the disk holds the table of entries, so a
reboot changes nothing but the identity.

* `files_survive_reboots` — **the refinement goes through them**.
-/

namespace NovaOS.Fs

open List

/-- A run of calls, with a reboot at every `none`: whether all calls succeeded, and the volume at the
end.  The run ends without one when a mount fails. -/
def bootRun (allocated : MigrationRequest → Bool) (total : ℕ) : Volume → List (Option FsOp) → Bool × Option Volume
  | v, [] => (true, some v)
  | v, some op :: events =>
    let (ok, w) := bootRun allocated total (v.step op).2 events
    ((v.step op).1 && ok, w)
  | v, none :: events =>
    match fsInit allocated total v.disk with
    | (true, w) => bootRun allocated total w events
    | (false, _) => (true, none)

/-- The calls of the run, each reboot a change of identity. -/
def callsOf (events : List (Option FsOp)) : List FsOp := events.map (·.getD (.setIdentity 0 true))

/-- After successful calls a reboot changes the identity and nothing else. -/
theorem Saved.bootRun_eq {total : ℕ} {v : Volume} (h : Saved total v) (allocated : MigrationRequest → Bool)
    {events : List (Option FsOp)} (hops : ∀ op ∈ callsOf events, op.Arguments)
    (htrue : (bootRun allocated total v events).1 = true) :
    v.allTrue (callsOf events) = true ∧
      (bootRun allocated total v events).2 = some (v.run (callsOf events)) := by
  induction events generalizing v with
  | nil => exact ⟨rfl, rfl⟩
  | cons event events ih =>
    rw [callsOf, map_cons, Volume.allTrue, Bool.and_eq_true]
    have hrest : ∀ w : Volume, Saved total w → (bootRun allocated total w events).1 = true →
        w.allTrue (callsOf events) = true ∧
          (bootRun allocated total w events).2 = some (w.run (callsOf events)) :=
      fun w hw => ih hw fun op hop => hops op (mem_cons_of_mem _ hop)
    cases event with
    | none =>
      rw [bootRun, h.fsInit_eq allocated] at htrue ⊢
      obtain ⟨hcalls, hvolume⟩ := hrest _ (h.step (hops _ mem_cons_self) rfl) htrue
      exact ⟨⟨rfl, hcalls⟩, hvolume⟩
    | some op =>
      rw [bootRun, Bool.and_eq_true] at htrue
      obtain ⟨hcalls, hvolume⟩ := hrest _ (h.step (hops _ mem_cons_self) htrue.1) htrue.2
      exact ⟨⟨htrue.1, hcalls⟩, hvolume⟩

/-- **The files survive reboots.**  Whatever calls of privileged users succeed and wherever the machine is
rebooted in between, every mount succeeds, and the abstract files are read and shown afterwards.  No
call reaches behind 2³¹ bytes of a file: `read_raw_data` fails on a longer one. -/
theorem files_survive_reboots (total : ℕ) (disk : ℕ → ℕ → UInt8) (allocated : MigrationRequest → Bool)
    (hlarge : 4608 + 128 < total) (hsmall : total ≤ 0x10000000) (events : List (Option FsOp))
    (hops : ∀ op ∈ callsOf events, op.Arguments ∧ op.finish < 2 ^ 31 ∧ op.privileged true = true)
    (htrue : (bootRun allocated total (formatted total disk) events).1 = true) :
    let files := (FileSystem.empty.run (callsOf events)).files
    ∃ w, (bootRun allocated total (formatted total disk) events).2 = some w ∧
      (∀ name offset capacity, fsReadAt w name offset capacity = files.readAt name offset capacity) ∧
      ∀ name follow, fsPathInfo w name follow = files.pathInfo name follow := by
  obtain ⟨v, hformat, hsaved, -⟩ := formatV2_holds disk hlarge hsmall
  obtain rfl : formatted total disk = v := congrArg Prod.snd hformat
  obtain ⟨hok, hempty, hprivileged⟩ := formatted_ok disk hlarge hsmall
  have hlen : ∀ op ∈ callsOf events, op.finish + 511 < 2 ^ 64 := by
    intro op hop
    have := (hops op hop).2.1
    omega
  obtain ⟨hcalls, hvolume⟩ := hsaved.bootRun_eq allocated (fun op hop => (hops op hop).1) htrue
  obtain ⟨hrun, hfiles⟩ := run_refines hok _ hlen hcalls
  have hpriv := run_privileged hok _ hlen hcalls hprivileged fun op hop => (hops op hop).2.2
  have hshort := FileSystem.run_short FileSystem.empty_short _ fun op hop => (hops op hop).2.1
  rw [hempty] at hfiles
  rw [← congrArg FileSystem.files hfiles] at hshort ⊢
  exact ⟨_, hvolume, hrun.fsReadAt_eq hpriv hshort, hrun.fsPathInfo_eq⟩

/-- A directory, a reboot, a file, a reboot. -/
def bootEvents : List (Option FsOp) :=
  [some (.mkdir [100] 0), none, some (.write [100, 47, 97] [1, 2, 3]), none]

theorem files_survive_reboots_file : ∃ w,
    (bootRun (fun _ => true) 5000 (formatted 5000 fun _ _ => 7) bootEvents).2 = some w ∧
      fsReadAt w [100, 47, 97] 1 9 = some [2, 3] := by
  obtain ⟨w, hw, hread, -⟩ := files_survive_reboots 5000 (fun _ _ => 7) (fun _ => true) (by decide)
    (by decide) bootEvents (by decide) (by decide +kernel)
  refine ⟨w, hw, ?_⟩
  rw [hread]
  decide +kernel

end NovaOS.Fs
