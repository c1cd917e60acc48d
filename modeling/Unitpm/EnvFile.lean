import Unitpm.LogRoot
import Unitpm.Service

/-! # Whose environment file a process reads

`validate_env_file` checks the owner of an absolute `env_file` on the resolved path and stores that
path as text; a relative one is stored as it is.  `prepare_env` opens what is stored.  So whoever
owns the files, the file read is a regular one of the caller exactly when the path is absolute and
its resolved form survives the conversion to text (`envFile_owned_iff`). -/

namespace Unitpm

open Rust.Path Rust.Str Fs

variable {h : Host} {fs : Disk} {privileged : Bool} {d : Daemon} {identity : Identity}
  {s t : AppSpec} {u : ℕ} {f : String}

/-- The same files with other owners. -/
def Disk.chown (fs : Disk) (owner : ℕ → ℕ) : Disk := { fs with owner := owner }

/-- What `prepare_env` reads for the spec is a regular file of the user. -/
def ReadsOwnFile (fs : Disk) (s : AppSpec) (u : ℕ) : Prop :=
  ∃ path i, s.envFile = some path ∧ fs.openRead (OsStr.ofString path) = .ok (.file i) ∧
    fs.owner i = u

/-- If the request is accepted, the process it starts reads a regular file of the user. -/
def AcceptedReadsOwnFile (h : Host) (fs : Disk) (privileged : Bool) (d : Daemon)
    (identity : Identity) (s : AppSpec) (u : ℕ) : Prop :=
  ∀ info p, (d.startProcess (h.onDisk fs) privileged identity s).2 = .ok info →
    (d.startProcess (h.onDisk fs) privileged identity s).1.processes.lookup info.id = some p →
    ReadsOwnFile fs p.spec u

/-- The text that is stored for an absolute path opens the file the path leads to. -/
def StoresSameFile (fs : Disk) (f : String) : Prop :=
  isAbsolutePath f = true ∧ ∃ r i, fs.canonicalize (OsStr.ofString f) = .ok r ∧
    FileSystem.metadata fs (Path.ofText r) = .ok (.file i) ∧
    fs.openRead (OsStr.ofString r.toStringLossy) = .ok (.file i)

/-! ### Accepted requests -/

theorem startProcess_accepted {info : ProcessInfo}
    (ha : (d.startProcess h privileged identity s).2 = .ok info) :
    ∃ t p, admitRequest h privileged identity s = .ok t ∧ d.CanStart h t ∧
      (d.startProcess h privileged identity s).1.processes.lookup info.id = some p ∧
      p.spec = t := by
  unfold Daemon.startProcess at ha ⊢
  cases ht : admitRequest h privileged identity s with
  | error e => rw [ht] at ha; cases ha
  | ok t =>
      rw [ht] at ha
      simp only at ha ⊢
      by_cases hc : d.CanStart h t
      · obtain ⟨p, hp, he⟩ := hc
        rw [Daemon.startWithSpec_of_canStart hp he] at ha ⊢
        refine ⟨t, p.started h (h.newPid d.os.pids), rfl, ⟨p, hp, he⟩, ?_,
          (Process.new_ok (Daemon.admission_ok hp).2).1⟩
        rw [← Except.ok.inj ha, Daemon.put_lookup, Function.update_self]
      · obtain ⟨e, he⟩ := Daemon.startWithSpec_of_not_canStart hc
        rw [he] at ha
        cases ha

theorem canStart_chown (owner : ℕ → ℕ) :
    d.CanStart (h.onDisk (fs.chown owner)) t ↔ d.CanStart (h.onDisk fs) t := Iff.rfl

theorem admitRequest_envFile (hf : s.envFile = some f) (hf0 : f ≠ "")
    (ht : admitRequest h privileged identity s = .ok t) :
    ∃ r, validateEnvFile h f identity = .ok r ∧ t.envFile = some r := by
  unfold admitRequest at ht
  split at ht
  · cases ht
  · split at ht
    · cases ht
    · split at ht
      · cases ht
      · rename_i s' hs'
        obtain ⟨c, rfl⟩ := resolveCwd_ok ht
        unfold resolveEnvFile at hs'
        rw [hf] at hs'
        simp only [if_neg hf0] at hs'
        split at hs'
        · cases hs'
        · rename_i r hr
          rw [← Except.ok.inj hs']
          exact ⟨r, hr, rfl⟩

theorem validateCwd_congr (h h' : Host) (hc : h'.canonicalize = h.canonicalize)
    (ho : h'.canOpen = h.canOpen)
    (hm : ∀ r, (h'.metadata r).map Metadata.isDir = (h.metadata r).map Metadata.isDir)
    (cwd : String) : validateCwd h' cwd = validateCwd h cwd := by
  unfold validateCwd
  rw [hc, ho]
  split
  · rfl
  · simp only
    split
    · rfl
    · rename_i r _
      split
      · rfl
      · split
        · rfl
        · have hr := hm r
          cases h1 : h'.metadata r <;> cases h2 : h.metadata r <;> simp_all

/-- The request is resolved alike on two machines that agree about the environment file and
about everything but owners. -/
theorem admitRequest_chown {owner : ℕ → ℕ} (hf : s.envFile = some f)
    (hv : validateEnvFile (h.onDisk (fs.chown owner)) f identity =
      validateEnvFile (h.onDisk fs) f identity) :
    admitRequest (h.onDisk (fs.chown owner)) privileged identity s =
      admitRequest (h.onDisk fs) privileged identity s := by
  have hcwd : ∀ s, resolveCwd (h.onDisk (fs.chown owner)) s = resolveCwd (h.onDisk fs) s := by
    intro s
    unfold resolveCwd
    split
    · rfl
    · rw [validateCwd_congr (h.onDisk fs) (h.onDisk (fs.chown owner)) rfl rfl]
      intro r
      change ((fs.chown owner).metadata r).toOption.map _ = (fs.metadata r).toOption.map _
      unfold Disk.metadata
      have hmeta : FileSystem.metadata (fs.chown owner) (Path.ofText r) =
          FileSystem.metadata fs (Path.ofText r) := rfl
      rw [hmeta]
      rcases FileSystem.metadata fs (Path.ofText r) with e | (_ | _ | _ | _) <;> rfl
  have henv : resolveEnvFile (h.onDisk (fs.chown owner)) identity s =
      resolveEnvFile (h.onDisk fs) identity s := by
    unfold resolveEnvFile
    rw [hf]
    simp only [hv]
  unfold admitRequest
  rw [henv]
  simp only [hcwd]

/-! ### The check of the owner -/

/-- What `validate_env_file` stores for an absolute path of a caller other than root. -/
theorem validateEnvFile_absolute {r : String} (ha : isAbsolutePath f = true)
    (hu : parseUnsigned (2 ^ 32 - 1) identity.uid.toList = some u) (hu0 : u ≠ 0) :
    validateEnvFile (h.onDisk fs) f identity = .ok r ↔
      (f.utf8ByteSize ≤ envFileMax ∧ pathHasParentTraversal f = false) ∧
        ∃ c i, fs.canonicalize (OsStr.ofString f) = .ok c ∧
          FileSystem.metadata fs (Path.ofText c) = .ok (.file i) ∧ fs.owner i = u ∧
          r = c.toStringLossy := by
  have hne : identity.uid ≠ "" := by
    intro he
    rw [he, show parseUnsigned (2 ^ 32 - 1) "".toList = none by decide] at hu
    cases hu
  unfold validateEnvFile
  have hcan : (h.onDisk fs).canonicalize (OsStr.ofString f) =
      (fs.canonicalize (OsStr.ofString f)).toOption := rfl
  by_cases hlen : f.utf8ByteSize > envFileMax
  · rw [if_pos hlen]
    simp [Nat.not_le.mpr hlen]
  · rw [if_neg hlen]
    by_cases htr : pathHasParentTraversal f = true
    · rw [if_pos htr]
      simp [htr]
    · rw [if_neg htr, if_neg (by simp [ha]), hcan]
      have hle : f.utf8ByteSize ≤ envFileMax := by omega
      rw [Bool.not_eq_true] at htr
      cases hc : fs.canonicalize (OsStr.ofString f) with
      | error e => simp [Except.toOption]
      | ok c =>
          have hmeta : (h.onDisk fs).metadata c = (fs.metadata c).toOption := rfl
          simp only [Except.toOption, hmeta, hle, htr, Disk.metadata, true_and, and_self,
            Except.ok.injEq, exists_and_left, exists_eq_left']
          cases hm : FileSystem.metadata fs (Path.ofText c) with
          | error e => simp
          | ok x =>
              cases x with
              | file i =>
                  simp only [hu]
                  by_cases ho : fs.owner i = u
                  · simp [hne, hu0, ho, eq_comm]
                  · simp [hne, hu0, ho]
              | _ => simp

theorem storesSameFile_of_text {r : String} {i : ℕ} (ha : isAbsolutePath f = true)
    (hcan : fs.canonicalize (OsStr.ofString f) = .ok (OsStr.ofString r))
    (hmeta : FileSystem.metadata fs (Path.ofText (OsStr.ofString r)) = .ok (.file i))
    (hread : fs.readable i = true) : StoresSameFile fs f := by
  refine ⟨ha, OsStr.ofString r, i, hcan, hmeta, ?_⟩
  rw [OsStr.toStringLossy_ofString, Disk.openRead, FileSystem.openRead, hmeta]
  simp [hread]

/-- A change of owners that leaves the check alone leaves the request accepted, and the same file
read. -/
theorem exists_opened_of_chown {owner : ℕ → ℕ} {r : String} {t : AppSpec}
    (hf : s.envFile = some f) (hr : validateEnvFile (h.onDisk fs) f identity = .ok r)
    (ht : admitRequest (h.onDisk fs) privileged identity s = .ok t) (htr : t.envFile = some r)
    (hc : d.CanStart (h.onDisk fs) t)
    (hv : validateEnvFile (h.onDisk (fs.chown owner)) f identity = .ok r)
    (hown : AcceptedReadsOwnFile h (fs.chown owner) privileged d identity s u) :
    ∃ i, fs.openRead (OsStr.ofString r) = .ok (.file i) ∧ owner i = u := by
  have ht' : admitRequest (h.onDisk (fs.chown owner)) privileged identity s = .ok t := by
    rw [admitRequest_chown hf (hv.trans hr.symm)]
    exact ht
  obtain ⟨info', hstart⟩ := Daemon.startProcess_of_canStart ht' ((canStart_chown owner).mpr hc)
  have hinfo' := congrArg Prod.snd hstart
  obtain ⟨t', p, ht'', -, hp, rfl⟩ := startProcess_accepted hinfo'
  obtain rfl := Except.ok.inj (ht'.symm.trans ht'')
  obtain ⟨path, i, hpath, hopen, hi⟩ := hown info' p hinfo' hp
  obtain rfl := Option.some.inj (htr.symm.trans hpath)
  exact ⟨i, hopen, hi⟩

/-- **Whose file is read**: for an accepted request of a caller other than root, the file that
`prepare_env` reads is a regular file of the caller, whoever owns what, exactly when the request
names an absolute path that is stored as a path to the same file. -/
theorem envFile_owned_iff (h : Host) (fs : Disk) (privileged : Bool) (d : Daemon)
    (identity : Identity) (u : ℕ) (s : AppSpec) (f : String)
    (hu : parseUnsigned (2 ^ 32 - 1) identity.uid.toList = some u) (hu0 : u ≠ 0)
    (hf : s.envFile = some f) (hf0 : f ≠ "")
    (hacc : (d.startProcess (h.onDisk fs) privileged identity s).2.isOk = true) :
    (∀ owner, AcceptedReadsOwnFile h (fs.chown owner) privileged d identity s u) ↔
      StoresSameFile fs f := by
  obtain ⟨info, hinfo⟩ := exists_of_isOk hacc
  obtain ⟨t, -, ht, hc, -, -⟩ := startProcess_accepted hinfo
  obtain ⟨r, hr, htr⟩ := admitRequest_envFile hf hf0 ht
  have hread : ∀ owner, validateEnvFile (h.onDisk (fs.chown owner)) f identity = .ok r →
      (∀ owner, AcceptedReadsOwnFile h (fs.chown owner) privileged d identity s u) →
      ∃ i, fs.openRead (OsStr.ofString r) = .ok (.file i) ∧ owner i = u :=
    fun owner hv hall => exists_opened_of_chown hf hr ht htr hc hv (hall owner)
  constructor
  · intro hall
    by_cases ha : isAbsolutePath f = true
    · obtain ⟨hpre, c, i, hcan, hmeta, -, rfl⟩ := (validateEnvFile_absolute ha hu hu0).mp hr
      have hv : validateEnvFile (h.onDisk (fs.chown fun j => if j = i then u else 0)) f identity
          = .ok c.toStringLossy :=
        (validateEnvFile_absolute ha hu hu0).mpr ⟨hpre, c, i, hcan, hmeta, if_pos rfl, rfl⟩
      obtain ⟨j, hopen, hown⟩ := hread _ hv hall
      by_cases hji : j = i
      · rw [hji] at hopen
        exact ⟨ha, c, i, hcan, hmeta, hopen⟩
      · rw [if_neg hji] at hown
        exact absurd hown.symm hu0
    · have hv : validateEnvFile (h.onDisk (fs.chown fun _ => 0)) f identity = .ok r := by
        rw [← hr]
        unfold validateEnvFile
        rw [if_pos ha, if_pos ha]
      obtain ⟨j, -, hown⟩ := hread _ hv hall
      exact absurd hown.symm hu0
  · rintro ⟨ha, c, i, hcan, hmeta, hopen⟩ owner info' p hinfo' hp
    obtain ⟨t', p', ht', -, hp', rfl⟩ := startProcess_accepted hinfo'
    obtain rfl := Option.some.inj (hp.symm.trans hp')
    obtain ⟨r', hr', htr'⟩ := admitRequest_envFile hf hf0 ht'
    obtain ⟨-, c', i', hcan', hmeta', hown, rfl⟩ := (validateEnvFile_absolute ha hu hu0).mp hr'
    obtain rfl : c = c' := Except.ok.inj (hcan.symm.trans hcan')
    obtain rfl : i = i' := Node.file.inj (Except.ok.inj (hmeta.symm.trans hmeta'))
    exact ⟨_, i, htr', hopen, hown⟩

/-- A file `/e` of the given user; the daemon runs in `/`. -/
def envDisk (owner : ℕ) : Disk where
  tree := Tree.ofEntries [([], .dir 0), (location "/e", .file 1)] (by decide) (by decide)
  cwd := []
  contents i := if i = 1 then [65, 61, 49] else []
  owner _ := owner
  readable _ := true
  writable _ := true
  nextIno := 2

/-- A command that takes its environment from the file. -/
def envFileSpec (f : String) : AppSpec := { plainSpec demoId with envFile := some f }

theorem envFile_owned_absolute :
    (∀ owner, AcceptedReadsOwnFile userHost ((envDisk 1000).chown owner) false {} ⟨"1000"⟩
        (envFileSpec "/e") 1000) ↔ StoresSameFile (envDisk 1000) "/e" :=
  envFile_owned_iff userHost (envDisk 1000) false {} ⟨"1000"⟩ 1000 (envFileSpec "/e") "/e"
    (by decide) (by decide) rfl (by decide) (by decide +kernel)

/-- A caller with uid 1000 names a file of root by a relative path, and is given it. -/
theorem envFile_relative_unchecked :
    ∃ info p,
      (({} : Daemon).startProcess (userHost.onDisk (envDisk 0)) false ⟨"1000"⟩
        (envFileSpec "e")).2 = .ok info ∧
      (({} : Daemon).startProcess (userHost.onDisk (envDisk 0)) false ⟨"1000"⟩
        (envFileSpec "e")).1.processes.lookup info.id = some p ∧
      p.spec.envFile = some "e" ∧
      (envDisk 0).openRead (OsStr.ofString "e") = .ok (.file 1) ∧
      ¬ ReadsOwnFile (envDisk 0) p.spec 1000 := by
  obtain ⟨info, hinfo⟩ : ∃ info, (({} : Daemon).startProcess (userHost.onDisk (envDisk 0)) false
      ⟨"1000"⟩ (envFileSpec "e")).2 = .ok info := exists_of_isOk (by decide +kernel)
  obtain ⟨t, p, ht, -, hp, rfl⟩ := startProcess_accepted hinfo
  obtain ⟨r, hr, hpr⟩ := admitRequest_envFile (f := "e") rfl (by decide) ht
  have hv : validateEnvFile (userHost.onDisk (envDisk 0)) "e" ⟨"1000"⟩ = .ok "e" := by decide
  obtain rfl := Except.ok.inj (hv.symm.trans hr)
  refine ⟨info, p, hinfo, hp, hpr, by decide, ?_⟩
  rintro ⟨path, i, -, -, hown⟩
  exact absurd (show (0 : ℕ) = 1000 from hown) (by decide)

end Unitpm
