import Unitpm.Lib.JsonPretty
import Unitpm.Spawn
import Unitpm.Updater

/-! # The cache of update checks

`internal/updater/cache.rs`: the result of a check is kept in a file, with its time and the version
that made it, and `check_cached` takes it from there as long as it is fresh.  A file that is there
but is not an entry makes `check_cached` fail before it asks.

`checkCached_transparent_iff`: so the cache does no harm as long as the file is not damaged.  No
sequence of calls damages it (`undamaged_run`), and none repairs it (`damaged_run`).

serde's implementation for `SystemTime` and the JSON library are parameters. -/

namespace Unitpm.UpdateCache

open Serde Rust.Path Fs

/-! ### Entries -/

/-- The part of a release that is kept. -/
structure Release where
  tagName : String
  htmlUrl : String
deriving DecidableEq

namespace Release

def record : Record Release Release :=
  Record.nil Release.mk
    |>.required "tag_name" tagName string
    |>.required "html_url" htmlUrl string

def shape : Shape Release := record.shape (fun _ => rfl) (by decide)

end Release

/-- An entry; times are in nanoseconds after the epoch. -/
structure CacheEntry where
  checkedAt : ℤ
  version : String
  release : Option Release
deriving DecidableEq

/-- How serde writes and reads a `SystemTime`: one from the epoch on, with seconds that fit an
`i64`, as a flat value. -/
structure TimeShape where
  shape : Shape ℤ
  valid : ∀ t, 0 ≤ t → t < 2 ^ 63 * 10 ^ 9 → shape.Valid t
  within : ∀ n, shape.Within (n + 1)

/-- `serde_json::Error`. -/
inductive JsonError where
  | malformed
  | data (e : Serde.Error)
  | beforeEpoch
deriving DecidableEq

/-- `CacheError`. -/
inductive CacheError where
  | io (e : String)
  | json (e : JsonError)
  | noPath
  | updater (e : String)
deriving DecidableEq

/-! ### Places -/

/-- `CACHE_BASENAME`. -/
def cacheBasename : String := "update-check.json"

/-- `cache_path`. -/
def cachePath (env : String → Option String) : Option OsStr :=
  match nonEmpty (env "UNITPM_CACHE_PATH") with
  | some p => some (OsStr.ofString p)
  | none =>
      match nonEmpty (env "XDG_CACHE_HOME") with
      | some xdg =>
          some (join (join (OsStr.ofString xdg) (OsStr.ofString "unitpm"))
            (OsStr.ofString cacheBasename))
      | none =>
          match nonEmpty (env "HOME") with
          | some home =>
              some (join (join (OsStr.ofString home) (OsStr.ofString ".cache/unitpm"))
                (OsStr.ofString cacheBasename))
          | none => none

/-- `file_stem`: a name up to its last dot, and all of it if it begins with that dot. -/
def fileStem (name : OsStr) : OsStr :=
  let before := ((name.reverse.dropWhile (· ≠ PathChar.dot)).drop 1).reverse
  if before = [] then name else before

/-- `with_extension`. -/
def withExtension (ext : OsStr) (p : List (Component OsChar)) : List (Component OsChar) :=
  match p.getLast? with
  | some (.normal name) => p.dropLast ++ [.normal (fileStem name ++ PathChar.dot :: ext)]
  | _ => p

/-- The file that becomes the cache. -/
def tmpPath (p : List (Component OsChar)) : List (Component OsChar) :=
  withExtension (OsStr.ofString "json.tmp") p

/-! ### Reading and writing -/

/-- A release as the network gives it. -/
structure LatestRelease extends Unitpm.Release where
  body : String
  htmlUrl : String

/-- What one call of `check_cached` finds: the clock before and after the check, the check itself,
and the errors of the file system.  A failing write leaves the first bytes.  The seconds of a
`SystemTime` fit an `i64`. -/
structure Call where
  ttl : ℕ
  now : ℤ
  later : ℤ
  later_lt : later < 2 ^ 63 * 10 ^ 9
  live : Except String (Option LatestRelease)
  readErr : Option String := none
  mkdirErr : Option String := none
  openErr : Option String := none
  writeErr : Option (String × ℕ) := none
  renameErr : Option String := none

/-- What is left after a call: the files, whether it has asked the network, and its result. -/
structure Checked where
  files : Files
  consulted : Bool
  result : Except CacheError (Option Release)

section

variable (time : TimeShape) (codec : Json.ByteCodec) (ownVersion : String)
  (env : String → Option String)

namespace CacheEntry

def record : Record CacheEntry CacheEntry :=
  Record.nil CacheEntry.mk
    |>.required "checked_at" checkedAt time.shape
    |>.required "version" version string
    |>.optional "release" release Release.shape

theorem names_record : (record time).names = ["checked_at", "version", "release"] := rfl

def shape : Shape CacheEntry :=
  (record time).shape (fun _ => rfl) (by rw [names_record]; decide)

/-- What is derived; without `#[serde(default)]` an array has to have all three values. -/
def decode (j : Json) : Except Serde.Error CacheEntry :=
  match (record time).decode j with
  | .error e => .error e
  | .ok entry =>
      match j with
      | .arr l => if l.length < 3 then .error (.invalidLength l.length) else .ok entry
      | _ => .ok entry

end CacheEntry

/-- `serde_json::from_slice`. -/
def fromSlice (data : Bytes) : Except JsonError CacheEntry :=
  match codec.fromSlice data with
  | none => .error .malformed
  | some j =>
      match CacheEntry.decode time j with
      | .error e => .error (.data e)
      | .ok entry => .ok entry

/-- `serde_json::to_vec`. -/
def toVec (entry : CacheEntry) : Except JsonError Bytes :=
  if entry.checkedAt < 0 then .error .beforeEpoch
  else .ok (codec.toVec ((CacheEntry.shape time).encode entry))

/-- `read_cache_inner`. -/
def readCacheInner (call : Call) (files : Files) : Except CacheError (Option CacheEntry) :=
  match cachePath env with
  | none => .ok none
  | some p =>
      match call.readErr with
      | some e => .error (.io e)
      | none =>
          match files (components p) with
          | none => .ok none
          | some data =>
              match fromSlice time codec data with
              | .error e => .error (.json e)
              | .ok entry => .ok (some entry)

/-- `write_cache_inner`. -/
def writeCacheInner (call : Call) (files : Files) (entry : CacheEntry) :
    Files × Except CacheError Unit :=
  match cachePath env with
  | none => (files, .error .noPath)
  | some p =>
      match (parent p).bind fun _ => call.mkdirErr with
      | some e => (files, .error (.io e))
      | none =>
          match toVec time codec entry with
          | .error e => (files, .error (.json e))
          | .ok data =>
              let tmp := tmpPath (components p)
              match call.openErr, call.writeErr with
              | some e, _ => (files, .error (.io e))
              | none, some (e, n) =>
                  (Function.update files tmp (some (data.take n)), .error (.io e))
              | none, none =>
                  let files := Function.update files tmp (some data)
                  match call.renameErr with
                  | some e => (files, .error (.io e))
                  | none =>
                      (Function.update (Function.update files tmp none) (components p)
                        (files tmp), .ok ())

/-- The entry is of this version and not older than the limit, nor of the future. -/
def isFresh (call : Call) (entry : CacheEntry) : Bool :=
  let now := call.now.toNat
  let age := if 0 ≤ entry.checkedAt then entry.checkedAt.toNat else now
  entry.version = ownVersion ∧ age ≤ now ∧ now - age < call.ttl

/-- The part of a release that an entry keeps. -/
def LatestRelease.cached (r : LatestRelease) : Release := ⟨r.tagName, r.htmlUrl⟩

/-- The check, and the entry for it. -/
def checkLive (call : Call) (files : Files) : Checked :=
  match call.live with
  | .error e => ⟨files, true, .error (.updater e)⟩
  | .ok live =>
      let entry : CacheEntry :=
        ⟨call.later, ownVersion, live.map LatestRelease.cached⟩
      ⟨(writeCacheInner time codec env call files entry).1, true, .ok entry.release⟩

/-- `check_cached`. -/
def checkCached (call : Call) (files : Files) : Checked :=
  match readCacheInner time codec env call files with
  | .error e => ⟨files, false, .error e⟩
  | .ok (some entry) =>
      if isFresh ownVersion call entry then ⟨files, false, .ok entry.release⟩
      else checkLive time codec ownVersion env call files
  | .ok none => checkLive time codec ownVersion env call files

/-! ### A transparent cache -/

/-- What `check_cached` gives without a cache. -/
def liveResult (call : Call) : Except CacheError (Option Release) :=
  match call.live with
  | .error e => .error (.updater e)
  | .ok live => .ok (live.map LatestRelease.cached)

/-- The file is there and its bytes are not an entry. -/
def DamagedFile (files : Files) : Prop :=
  ∃ p data, cachePath env = some p ∧ files (components p) = some data ∧
    ∀ entry, fromSlice time codec data ≠ .ok entry

/-- The file is damaged, or there is a reason other than its absence that it cannot be read. -/
def Damaged (call : Call) (files : Files) : Prop :=
  ((cachePath env).isSome ∧ call.readErr.isSome) ∨ DamagedFile time codec env files

/-- The file is an entry. -/
def Holds (files : Files) (entry : CacheEntry) : Prop :=
  ∃ p data, cachePath env = some p ∧ files (components p) = some data ∧
    fromSlice time codec data = .ok entry

/-- Nothing is in the way of writing an entry. -/
structure Writable (call : Call) : Prop where
  path : (cachePath env).isSome
  mkdir : call.mkdirErr = none
  opened : call.openErr = none
  written : call.writeErr = none
  renamed : call.renameErr = none
  time : 0 ≤ call.later

/-- The cache does no harm in a call. -/
structure Transparent (call : Call) (files : Files) : Prop where
  /-- With a check that succeeds the call does. -/
  succeeds : ∀ live, call.live = .ok live →
    ∃ r, (checkCached time codec ownVersion env call files).result = .ok r
  /-- A result that comes from the check is that of the check. -/
  same : (checkCached time codec ownVersion env call files).consulted = true →
    (checkCached time codec ownVersion env call files).result = liveResult call
  /-- With a damaged file there is a check. -/
  checks : Damaged time codec env call files →
    (checkCached time codec ownVersion env call files).consulted = true
  /-- What has been found is in the file. -/
  replaced : (checkCached time codec ownVersion env call files).consulted = true →
    ∀ live, call.live = .ok live → Writable env call →
      Holds time codec env (checkCached time codec ownVersion env call files).files
        ⟨call.later, ownVersion, live.map LatestRelease.cached⟩

/-! ### An entry is read back -/

theorem within_release {n : ℕ} : Release.shape.Within (n + 1) :=
  (Record.Within.nil Release.mk)
    |>.required within_string
    |>.required within_string
    |>.shape

theorem within_entry {n : ℕ} : (CacheEntry.shape time).Within (n + 2) :=
  (Record.Within.nil CacheEntry.mk)
    |>.required (time.within n)
    |>.required within_string
    |>.optional within_release
    |>.shape

theorem valid_entry {entry : CacheEntry} (h0 : 0 ≤ entry.checkedAt)
    (h1 : entry.checkedAt < 2 ^ 63 * 10 ^ 9) : (CacheEntry.shape time).Valid entry := by
  have htime := time.valid entry.checkedAt h0 h1
  simp [CacheEntry.shape, CacheEntry.record, Release.shape, Release.record, Record.shape, htime,
    string]

theorem decode_encode {entry : CacheEntry} (h : (CacheEntry.shape time).Valid entry) :
    CacheEntry.decode time ((CacheEntry.shape time).encode entry) = .ok entry := by
  have hshape : (CacheEntry.record time).decode ((CacheEntry.shape time).encode entry) =
      .ok entry := (CacheEntry.shape time).decode_encode h
  rw [CacheEntry.decode, hshape]
  rfl

theorem fromSlice_toVec (entry : CacheEntry) (h0 : 0 ≤ entry.checkedAt)
    (h1 : entry.checkedAt < 2 ^ 63 * 10 ^ 9) :
    ∃ data, toVec time codec entry = .ok data ∧ fromSlice time codec data = .ok entry := by
  have hvalid := valid_entry time h0 h1
  refine ⟨codec.toVec ((CacheEntry.shape time).encode entry), if_neg (Int.not_lt.2 h0), ?_⟩
  rw [fromSlice, codec.fromSlice_toVec _ (within_entry time entry hvalid)]
  simp only [decode_encode time hvalid]

/-! ### One call -/

section

variable {time codec ownVersion env} {call : Call} {files : Files}

theorem readCacheInner_error_iff :
    (∃ e, readCacheInner time codec env call files = .error e) ↔
      Damaged time codec env call files := by
  unfold readCacheInner Damaged DamagedFile
  cases cachePath env with
  | none => simp
  | some p =>
      cases call.readErr with
      | some e => simp
      | none =>
          cases hdata : files (components p) with
          | none => simp [hdata]
          | some data =>
              cases hentry : fromSlice time codec data <;> simp [hdata, hentry]

theorem checkCached_of_damaged (h : Damaged time codec env call files) :
    ∃ e, checkCached time codec ownVersion env call files = ⟨files, false, .error e⟩ := by
  obtain ⟨e, he⟩ := readCacheInner_error_iff.2 h
  exact ⟨e, by rw [checkCached, he]⟩

theorem checkCached_of_not_damaged (h : ¬ Damaged time codec env call files) :
    (∃ r, checkCached time codec ownVersion env call files = ⟨files, false, .ok r⟩) ∨
      checkCached time codec ownVersion env call files =
        checkLive time codec ownVersion env call files := by
  unfold checkCached
  cases hread : readCacheInner time codec env call files with
  | error e => exact absurd (readCacheInner_error_iff.1 ⟨e, hread⟩) h
  | ok entry =>
      cases entry with
      | none => exact .inr rfl
      | some entry =>
          by_cases hfresh : isFresh ownVersion call entry = true
          · exact .inl ⟨entry.release, by simp [hfresh]⟩
          · exact .inr (by simp [hfresh])

theorem checkLive_result :
    (checkLive time codec ownVersion env call files).result = liveResult call := by
  unfold checkLive liveResult
  cases call.live <;> rfl

theorem writeCacheInner_holds (hw : Writable env call) {entry : CacheEntry}
    (hentry : entry.checkedAt = call.later) :
    Holds time codec env (writeCacheInner time codec env call files entry).1 entry := by
  obtain ⟨p, hp⟩ := Option.isSome_iff_exists.1 hw.path
  obtain ⟨data, hdata, hback⟩ := fromSlice_toVec time codec entry
    (hentry ▸ hw.time) (hentry ▸ call.later_lt)
  refine ⟨p, data, hp, ?_, hback⟩
  have hmkdir : ((parent p).bind fun _ => call.mkdirErr) = none := by
    rw [hw.mkdir]
    cases parent p <;> rfl
  unfold writeCacheInner
  simp only [hp, hmkdir, hdata, hw.opened, hw.written, hw.renamed, Function.update_self]

theorem checkLive_holds (hw : Writable env call) {live : Option LatestRelease}
    (hlive : call.live = .ok live) :
    Holds time codec env (checkLive time codec ownVersion env call files).files
      ⟨call.later, ownVersion, live.map LatestRelease.cached⟩ := by
  rw [checkLive, hlive]
  exact writeCacheInner_holds hw rfl

end

/-- **When the cache is transparent**: whenever its file is not damaged. -/
theorem checkCached_transparent_iff (call : Call) (files : Files) :
    Transparent time codec ownVersion env call files ↔ ¬ Damaged time codec env call files := by
  constructor
  · intro h hdamaged
    have hchecks := h.checks hdamaged
    obtain ⟨e, he⟩ : ∃ e, checkCached time codec ownVersion env call files =
      ⟨files, false, .error e⟩ := checkCached_of_damaged hdamaged
    rw [he] at hchecks
    cases hchecks
  · intro h
    have hcases : (∃ r, checkCached time codec ownVersion env call files =
        ⟨files, false, .ok r⟩) ∨ checkCached time codec ownVersion env call files =
          checkLive time codec ownVersion env call files := checkCached_of_not_damaged h
    rcases hcases with ⟨r, hfresh⟩ | hlive
    · refine ⟨fun live hl => ⟨r, ?_⟩, fun hc => ?_, fun hd => absurd hd h, fun hc => ?_⟩
      · rw [hfresh]
      · rw [hfresh] at hc
        cases hc
      · rw [hfresh] at hc
        cases hc
    · refine ⟨fun live hl => ⟨live.map LatestRelease.cached, ?_⟩, fun _ => ?_,
        fun hd => absurd hd h, fun _ live hl hw => ?_⟩
      · rw [hlive, checkLive_result, liveResult, hl]
      · rw [hlive, checkLive_result]
      · rw [hlive]
        exact checkLive_holds hw hl

end

/-! ### An empty file -/

/-- A `SystemTime` as an object of its seconds and nanoseconds. -/
def secondsShape : Shape ℤ :=
  (Record.nil (fun secs nanos : ℤ => secs * 10 ^ 9 + nanos)
    |>.required "secs_since_epoch" (· / 10 ^ 9) i64
    |>.required "nanos_since_epoch" (· % 10 ^ 9) i32).shape
    (fun t => Int.ediv_mul_add_emod t (10 ^ 9)) (by decide)

def secondsTime : TimeShape where
  shape := secondsShape
  valid t h0 h1 := by
    simp only [secondsShape, Record.shape, Record.valid_required, Record.valid_nil, i64, i32,
      signed, true_and]
    omega
  within _ := (Record.Within.nil _)
    |>.required within_i64
    |>.required within_i32
    |>.shape

def homeEnv : String → Option String := fun k => if k = "HOME" then some "/home/u" else none

/-- The file is there without a byte. -/
def emptyCache : Files := fun p =>
  if p = components (OsStr.ofString "/home/u/.cache/unitpm/update-check.json") then some []
  else none

def upToDate : Call where
  ttl := 86400 * 10 ^ 9
  now := 1704110400 * 10 ^ 9
  later := 1704110400 * 10 ^ 9
  later_lt := by decide
  live := .ok none

/-- The check would succeed, and the call does not. -/
theorem emptyCache_not_transparent :
    ¬ Transparent secondsTime Json.compactBytes "1.0.0" homeEnv upToDate emptyCache := by
  intro h
  obtain ⟨r, hr⟩ := h.succeeds none rfl
  have hdecode : Utf8.decode [] = some [] := Utf8.decode_encode []
  have hbytes : fromSlice secondsTime Json.compactBytes [] = .error .malformed := by
    simp only [fromSlice, Json.compactBytes, hdecode, Option.bind_some]
    rfl
  have hpath : cachePath homeEnv =
      some (OsStr.ofString "/home/u/.cache/unitpm/update-check.json") := by decide +kernel
  have hread : readCacheInner secondsTime Json.compactBytes homeEnv upToDate emptyCache =
      .error (.json .malformed) := by
    simp [readCacheInner, hpath, upToDate, emptyCache, hbytes]
  rw [checkCached, hread] at hr
  cases hr

/-! ### A run of calls -/

section

variable (time : TimeShape) (codec : Json.ByteCodec) (ownVersion : String)
  (env : String → Option String)

/-- The calls of a run, each with the files that it finds. -/
def calls : List Call → Files → List (Call × Files)
  | [], _ => []
  | call :: rest, files =>
      (call, files) :: calls rest (checkCached time codec ownVersion env call files).files

section

variable {time codec ownVersion env} {files : Files}

/-- **A damaged file stays**: every call of a run finds it and fails. -/
theorem damaged_run (h : DamagedFile time codec env files) (run : List Call) :
    ∀ x ∈ calls time codec ownVersion env run files, x.2 = files ∧
      ∃ e, checkCached time codec ownVersion env x.1 x.2 = ⟨files, false, .error e⟩ := by
  induction run with
  | nil => simp [calls]
  | cons call run ih =>
      obtain ⟨e, he⟩ : ∃ e, checkCached time codec ownVersion env call files =
        ⟨files, false, .error e⟩ := checkCached_of_damaged (.inr h)
      rw [calls, List.forall_mem_cons]
      refine ⟨⟨rfl, e, he⟩, ?_⟩
      rw [he]
      exact ih

/-- Behind the stem there is no second dot. -/
theorem ne_fileStem_append {name ext : OsStr} (hext : PathChar.dot ∈ ext) :
    name ≠ fileStem name ++ PathChar.dot :: ext := by
  intro h
  unfold fileStem at h
  dsimp only at h
  split_ifs at h with hbefore
  · have hlen := congrArg List.length h
    rw [List.length_append, List.length_cons] at hlen
    omega
  · cases hdrop : name.reverse.dropWhile (· ≠ PathChar.dot) with
    | nil =>
        rw [hdrop] at hbefore
        exact absurd rfl hbefore
    | cons c rest =>
        have happend := List.takeWhile_append_dropWhile (p := (· ≠ PathChar.dot))
          (l := name.reverse)
        rw [hdrop] at happend
        have hname : name =
            rest.reverse ++ c :: (name.reverse.takeWhile (· ≠ PathChar.dot)).reverse := by
          calc name = name.reverse.reverse := (List.reverse_reverse name).symm
            _ = (name.reverse.takeWhile (· ≠ PathChar.dot) ++ c :: rest).reverse := by rw [happend]
            _ = _ := by
              rw [List.reverse_append, List.reverse_cons, List.append_assoc, List.singleton_append]
        rw [hdrop, List.drop_succ_cons, List.drop_zero] at h
        have hsame := List.append_cancel_left (hname.symm.trans h)
        have hmem : PathChar.dot ∈ name.reverse.takeWhile (· ≠ PathChar.dot) := by
          rw [← List.mem_reverse, (List.cons.inj hsame).2]
          exact hext
        simpa using List.mem_takeWhile_imp hmem

theorem tmpPath_ne {p : OsStr} (hp : (fileName p).isSome) :
    tmpPath (components p) ≠ components p := by
  obtain ⟨name, hname⟩ : ∃ name, (components p).getLast? = some (.normal name) := by
    unfold fileName at hp
    split at hp
    · rename_i name hlast
      exact ⟨name, hlast⟩
    · cases hp
  intro h
  have hlast := congrArg List.getLast? h
  rw [tmpPath, withExtension, hname] at hlast
  simp only [List.getLast?_append_cons, List.getLast?_singleton, Option.some.injEq,
    Component.normal.injEq] at hlast
  exact ne_fileStem_append (by decide +kernel) hlast.symm

/-- What a write leaves in the file. -/
theorem writeCacheInner_file {call : Call} {entry : CacheEntry} {p : OsStr}
    (hp : cachePath env = some p) (hname : (fileName p).isSome) :
    (writeCacheInner time codec env call files entry).1 (components p) = files (components p) ∨
      ∃ data, toVec time codec entry = .ok data ∧
        (writeCacheInner time codec env call files entry).1 (components p) = some data := by
  have hkeep : ∀ data : Option Bytes,
      Function.update files (tmpPath (components p)) data (components p) = files (components p) :=
    fun data => Function.update_of_ne (tmpPath_ne hname).symm _ _
  unfold writeCacheInner
  simp only [hp]
  cases (parent p).bind fun _ => call.mkdirErr with
  | some e => exact .inl rfl
  | none =>
      cases hdata : toVec time codec entry with
      | error e => exact .inl rfl
      | ok data =>
          cases call.openErr with
          | some e => exact .inl rfl
          | none =>
              cases call.writeErr with
              | some w => exact .inl (hkeep _)
              | none =>
                  cases call.renameErr with
                  | some e => exact .inl (hkeep _)
                  | none => exact .inr ⟨data, rfl, by simp⟩

/-- No call damages the file. -/
theorem not_damagedFile_step
    (hname : ∀ p, cachePath env = some p → (fileName p).isSome)
    (h : ¬ DamagedFile time codec env files) (call : Call) :
    ¬ DamagedFile time codec env (checkCached time codec ownVersion env call files).files := by
  have hlive : ¬ DamagedFile time codec env
      (checkLive time codec ownVersion env call files).files := by
    rw [checkLive]
    cases call.live with
    | error e => exact h
    | ok live =>
        rintro ⟨p, data, hp, hdata, hno⟩
        rcases writeCacheInner_file hp (hname p hp) with hkept | ⟨data', hto, hnew⟩
        · exact h ⟨p, data, hp, hkept.symm.trans hdata, hno⟩
        · obtain rfl := Option.some.inj (hnew.symm.trans hdata)
          have hepoch : 0 ≤ call.later := by
            by_contra hneg
            rw [toVec, if_pos (Int.not_le.1 hneg)] at hto
            cases hto
          obtain ⟨data, hdata', hback⟩ := fromSlice_toVec time codec
            ⟨call.later, ownVersion, live.map LatestRelease.cached⟩ hepoch call.later_lt
          obtain rfl := Except.ok.inj (hto.symm.trans hdata')
          exact hno _ hback
  by_cases hdamaged : Damaged time codec env call files
  · obtain ⟨e, he⟩ : ∃ e, checkCached time codec ownVersion env call files =
      ⟨files, false, .error e⟩ := checkCached_of_damaged hdamaged
    rw [he]
    exact h
  · have hcases : (∃ r, checkCached time codec ownVersion env call files =
        ⟨files, false, .ok r⟩) ∨ checkCached time codec ownVersion env call files =
          checkLive time codec ownVersion env call files := checkCached_of_not_damaged hdamaged
    rcases hcases with ⟨r, hr⟩ | hr
    · rw [hr]
      exact h
    · rw [hr]
      exact hlive

/-- **A file that is not damaged stays so**: in a run without errors of reading the cache is
transparent in every call. -/
theorem undamaged_run
    (hname : ∀ p, cachePath env = some p → (fileName p).isSome)
    (h : ¬ DamagedFile time codec env files) (run : List Call)
    (hread : ∀ call ∈ run, call.readErr = none) :
    ∀ x ∈ calls time codec ownVersion env run files,
      Transparent time codec ownVersion env x.1 x.2 := by
  induction run generalizing files with
  | nil => simp [calls]
  | cons call run ih =>
      obtain ⟨hcall, hrun⟩ := List.forall_mem_cons.1 hread
      rw [calls, List.forall_mem_cons]
      refine ⟨(checkCached_transparent_iff time codec ownVersion env call files).2 ?_,
        ih (not_damagedFile_step hname h call) hrun⟩
      rintro (⟨-, hr⟩ | hd)
      · rw [hcall] at hr
        cases hr
      · exact h hd

end

end

end Unitpm.UpdateCache
