import Unitpm.WatchIgnore
import Unitpm.Lib.Overlay
import Mathlib.Data.Finmap

/-! # What makes a watch fire

Every poll of the watcher scans the tree into a map from a path to the size and the time of a file
(`scan`) and compares the map with the one of the poll before (`diff_snapshots`).  The comparison
looks at the sizes of the maps and at the files of the new one.  A file that is gone is not looked
for, but where one is gone and the size is the same another one has come
(`diffSnapshots_eq_false_iff`).

`callback_iff` says this of the loop: the callback runs in a round if and only if its scan is not
the one before. -/

namespace Unitpm.Manager.Watch

/-! ### Snapshots -/

/-- `FileEntry`; a time is in nanoseconds since the epoch. -/
structure FileEntry where
  modTime : ℤ
  size : ℕ
deriving DecidableEq

/-- `HashMap<String, FileEntry>`, with the order in which it is iterated. -/
abbrev Snapshot : Type := AList fun _ : List Char => FileEntry

/-- The loop of `diff_snapshots` over what is left of `cur`. -/
def entriesDiffer (old : Snapshot) : List ((_ : List Char) × FileEntry) → Bool
  | [] => false
  | ⟨path, ce⟩ :: rest =>
      match old.lookup path with
      | some oe =>
          if oe.size = ce.size ∧ oe.modTime = ce.modTime then entriesDiffer old rest else true
      | none => true

/-- `diff_snapshots`. -/
def diffSnapshots (old cur : Snapshot) : Bool :=
  if old.keys.length ≠ cur.keys.length then true else entriesDiffer old cur.entries

/-- The metadata of a file: its time, if the file system has it, and its length. -/
structure Metadata where
  modified : Option ℤ
  len : ℕ

/-- The entry of a file; without a time it is the epoch. -/
def Metadata.entry (m : Metadata) : FileEntry := ⟨m.modified.getD 0, m.len⟩

/-- `MAX_WATCH_FILES`. -/
def maxWatchFiles : ℕ := 50000

/-- The loop of `scan`. -/
def collectFiles (files : List (List Char × Metadata)) : Snapshot :=
  ((files.take maxWatchFiles).map fun f => (f.1, f.2.entry)).foldl
    (fun entries f => entries.insert f.1 f.2) ∅

/-- `scan`, with a walk of at most `fuel` rounds. -/
def scan (fuel : ℕ) (ignore : List (List Char))
    (readDir : List Fs.FileName → Option (List (Option (WatchEntry Metadata)))) : Option Snapshot :=
  (walkdirFollow fuel ignore readDir).map collectFiles

/-! ### The comparison -/

theorem toFinmap_eq_of_lookup {α : Type} {β : α → Type} [DecidableEq α] {s t : AList β}
    (hlen : s.keys.length = t.keys.length)
    (h : ∀ a b, t.lookup a = some b → s.lookup a = some b) : s.toFinmap = t.toFinmap := by
  have hsub : t.entries ⊆ s.entries := by
    rintro ⟨a, b⟩ he
    exact AList.mem_lookup_iff.mp (h a b (AList.mem_lookup_iff.mpr he))
  have hle : s.entries.length ≤ t.entries.length := by
    simpa [AList.keys, List.keys] using hlen.le
  have hperm : t.entries.Perm s.entries :=
    (List.subperm_of_subset t.nodupKeys.nodup hsub).perm_of_length_le hle
  exact AList.toFinmap_eq.mpr hperm.symm

/-- The loop finds nothing if the old map has every entry. -/
theorem entriesDiffer_eq_false_iff (old : Snapshot) (es : List ((_ : List Char) × FileEntry)) :
    entriesDiffer old es = false ↔ ∀ e ∈ es, old.lookup e.1 = some e.2 := by
  induction es with
  | nil => simp [entriesDiffer]
  | cons e es ih =>
      obtain ⟨path, ce⟩ := e
      rw [List.forall_mem_cons, entriesDiffer]
      cases hold : old.lookup path with
      | none => simp
      | some oe =>
          by_cases heq : oe.size = ce.size ∧ oe.modTime = ce.modTime
          · have hentry : oe = ce := by
              cases oe
              cases ce
              simpa [and_comm] using heq
            simp only [heq, and_self, if_true]
            rw [ih, hentry]
            simp
          · have hne : oe ≠ ce := by
              rintro rfl
              exact heq ⟨rfl, rfl⟩
            simp [heq, hne]

theorem toFinmap_eq_iff_lookup (s t : Snapshot) :
    s.toFinmap = t.toFinmap ↔ ∀ path, s.lookup path = t.lookup path := by
  constructor
  · intro h path
    rw [← Finmap.lookup_toFinmap, h, Finmap.lookup_toFinmap]
  · intro h
    exact Finmap.ext_lookup fun path => by
      rw [Finmap.lookup_toFinmap, Finmap.lookup_toFinmap, h]

/-- The comparison of the sizes and of one side finds what a comparison of all paths finds. -/
theorem diffSnapshots_iff_lookup (old cur : Snapshot) :
    diffSnapshots old cur = true ↔ ¬ ∀ path, old.lookup path = cur.lookup path := by
  rw [← Bool.not_eq_false, not_iff_not, ← toFinmap_eq_iff_lookup, diffSnapshots]
  by_cases hlen : old.keys.length = cur.keys.length
  · rw [if_neg (not_not.mpr hlen), entriesDiffer_eq_false_iff]
    constructor
    · exact fun h => toFinmap_eq_of_lookup hlen fun path ce hce =>
        h ⟨path, ce⟩ (AList.mem_lookup_iff.mp hce)
    · intro h e he
      rw [(toFinmap_eq_iff_lookup old cur).mp h]
      exact AList.mem_lookup_iff.mpr he
  · rw [if_pos hlen]
    refine iff_of_false (by simp) fun h => hlen ?_
    exact ((AList.toFinmap_eq.mp h).map Sigma.fst).length_eq

/-- **Snapshots.** The comparison finds no difference if and only if the maps are equal. -/
theorem diffSnapshots_eq_false_iff (old cur : Snapshot) :
    diffSnapshots old cur = false ↔ old.toFinmap = cur.toFinmap := by
  unfold diffSnapshots
  constructor
  · intro h
    split_ifs at h with hlen
    rw [entriesDiffer_eq_false_iff] at h
    apply toFinmap_eq_of_lookup (not_not.mp hlen)
    intro path ce hce
    exact h ⟨path, ce⟩ (AList.mem_lookup_iff.mp hce)
  · intro h
    have hperm : old.entries.Perm cur.entries := AList.toFinmap_eq.mp h
    have hlen : old.keys.length = cur.keys.length := (hperm.map Sigma.fst).length_eq
    rw [if_neg (not_not.mpr hlen), entriesDiffer_eq_false_iff]
    rintro ⟨path, ce⟩ he
    rw [AList.perm_lookup hperm]
    exact AList.mem_lookup_iff.mpr he

/-- A file that is renamed changes the map and not its size. -/
example : diffSnapshots (AList.singleton ['a'] ⟨0, 1⟩) (AList.singleton ['b'] ⟨0, 1⟩) = true := by
  decide

/-! ### The watcher -/

/-- A round of the thread: whether it was cancelled while it slept, what it scanned, and whether it
was cancelled during the scan. -/
structure Round where
  asleep : Bool
  current : Snapshot
  scanning : Bool

/-- The loop of the thread: for each round that comes to the comparison, whether the callback is
called. -/
def watchRounds : Snapshot → List Round → List Bool
  | _, [] => []
  | last, r :: rounds =>
      if r.asleep then []
      else if r.scanning then []
      else diffSnapshots last r.current :: watchRounds r.current rounds

/-- The rounds before the watch is cancelled. -/
def activeRounds (rounds : List Round) : List Round :=
  rounds.takeWhile fun r => !r.asleep && !r.scanning

/-- The scans that the rounds before the cancellation compare, the first one from the start of the
watch. -/
def scans (initial : Snapshot) (rounds : List Round) : List Snapshot :=
  initial :: (activeRounds rounds).map Round.current

theorem activeRounds_cons_of_active {r : Round} (h : (!r.asleep && !r.scanning) = true)
    (rounds : List Round) : activeRounds (r :: rounds) = r :: activeRounds rounds :=
  List.takeWhile_cons_of_pos h

/-- In each round that comes to the comparison, it is with the scan before. -/
theorem watchRounds_eq (initial : Snapshot) (rounds : List Round) :
    watchRounds initial rounds =
      List.zipWith diffSnapshots (scans initial rounds) (scans initial rounds).tail := by
  induction rounds generalizing initial with
  | nil => rfl
  | cons r rounds ih =>
      rw [watchRounds]
      by_cases hactive : (!r.asleep && !r.scanning) = true
      · obtain ⟨hasleep, hscanning⟩ : r.asleep = false ∧ r.scanning = false := by
          simpa using hactive
        rw [hasleep, hscanning, ih]
        simp [scans, activeRounds_cons_of_active hactive]
      · have hnone : activeRounds (r :: rounds) = [] := List.takeWhile_cons_of_neg hactive
        rw [scans, hnone]
        cases hasleep : r.asleep with
        | true => rfl
        | false =>
            have hscanning : r.scanning = true := by simpa [hasleep] using hactive
            rw [hscanning]
            rfl

/-- **The callback.** It is called in a round if and only if the scan of the round is not the one
before. -/
theorem callback_iff (initial : Snapshot) (rounds : List Round) (i : ℕ) :
    (watchRounds initial rounds)[i]? = some true ↔
      ∃ last cur, (scans initial rounds)[i]? = some last ∧
        (scans initial rounds)[i + 1]? = some cur ∧ last.toFinmap ≠ cur.toFinmap := by
  rw [watchRounds_eq, List.getElem?_zipWith_eq_some]
  constructor
  · rintro ⟨last, cur, hlast, hcur, hdiff⟩
    rw [List.getElem?_tail] at hcur
    refine ⟨last, cur, hlast, hcur, fun heq => ?_⟩
    exact (diffSnapshots_iff_lookup last cur).mp hdiff ((toFinmap_eq_iff_lookup last cur).mp heq)
  · rintro ⟨last, cur, hlast, hcur, hne⟩
    refine ⟨last, cur, hlast, by rwa [List.getElem?_tail], ?_⟩
    rw [diffSnapshots_iff_lookup]
    exact fun hsame => hne ((toFinmap_eq_iff_lookup last cur).mpr hsame)

theorem lookup_collectFiles (files : List (List Char × Metadata)) (path : List Char) :
    (collectFiles files).lookup path =
      Overlay.lastVal ((files.take maxWatchFiles).map fun f => (f.1, f.2.entry)) path := by
  rw [collectFiles, Overlay.lookup_foldl_insert]
  simp

end Unitpm.Manager.Watch
