import Mathlib.Logic.Function.Basic
import Unitpm.Lib.OsPath

/-! # Self-update

`internal/updater`: the binary of a release is downloaded next to the running one, its signature
checked, and the file renamed over the running one.  The network, the errors of the file system and
the linked libraries (`Crypto`) are parameters: a reply is any sequence of reads that ends or
fails.

`applyToPathWithKey_failClosed`: without `allow_unsigned` the running binary is replaced only by
bytes whose signature verifies, and not at all when the update fails.  With it the signature is not
looked at, whether the release has one or not (`allowUnsigned_verifies_iff`). -/

namespace Unitpm

open Rust.Path Fs

abbrev Bytes : Type := List UInt8

/-! ### Releases -/

structure Asset where
  name : String
  browserDownloadUrl : String
deriving DecidableEq

structure Release where
  tagName : String
  assets : List Asset
deriving DecidableEq

structure ApplyOptions where
  allowUnsigned : Bool := false

/-- The errors of an update. -/
inductive UpdateError where
  | signatureRequiredWith (s : String)
  | noCompatibleBinary (os arch tag : String)
  | http (s : String)
  | signatureMalformed (bytes : ℕ)
  | signatureInvalid
  | io (s : String)
  | tempFile (s : String)
  | downloadStatus (s : String)
  | downloadWrite (s : String)
  | downloadTooLarge (max : ℕ)
  | chmod (s : String)
  | rename (s : String)
deriving DecidableEq

/-- `RELEASE_PUBLIC_KEY_B64`. -/
def releasePublicKeyB64 : String := "HFv7vg5FCY7YyKUDbJhaQSfB9SboJGSblJtFbLmLHzM="

/-- `MAX_DOWNLOAD_SIZE`. -/
def maxDownloadSize : ℕ := 500 * 1024 * 1024

/-- `pub_key_is_present`. -/
def pubKeyIsPresent : Bool := releasePublicKeyB64 ≠ ""

/-- `env::consts`. -/
structure Platform where
  os : String
  arch : String

/-- `asset_basename`. -/
def Platform.assetBasename (pl : Platform) : String := "unitpm_" ++ pl.os ++ "_" ++ pl.arch

/-- The loop over the assets: of assets with one name, the last counts. -/
def assetUrls (target sigTarget : String) (assets : List Asset) : Option String × Option String :=
  assets.foldl (fun urls a =>
    if a.name = target then (some a.browserDownloadUrl, urls.2)
    else if a.name = sigTarget then (urls.1, some a.browserDownloadUrl)
    else urls) (none, none)

/-! ### Signatures -/

/-- The four engines of `base64::engine::general_purpose`. -/
inductive Base64Engine where
  | standard
  | standardNoPad
  | urlSafe
  | urlSafeNoPad

/-- The libraries the updater links: base64, and ed25519 verification of a body against a
signature of 64 bytes. -/
structure Crypto (κ : Type) where
  decode : Base64Engine → Bytes → Option Bytes
  verify : κ → Bytes → Bytes → Bool

variable {κ : Type}

/-- `decode_signature`: 64 raw bytes, or what one of the engines makes of the text. -/
def decodeSignature (crypto : Crypto κ) (raw : Bytes) : Except UpdateError Bytes :=
  if raw.length = 64 then .ok raw
  else
    let decoded := [Base64Engine.standard, .standardNoPad, .urlSafe, .urlSafeNoPad].filterMap
      fun engine => (crypto.decode engine raw).filter fun sig => sig.length = 64
    match decoded with
    | sig :: _ => .ok sig
    | [] => .error (.signatureMalformed raw.length)

/-! ### The network and the disk -/

/-- The reply to a request: the call fails, or what the successive reads of the body return, and
how the last one fails if it does. -/
inductive Reply where
  | failed (e : String)
  | response (status : ℕ) (reads : List Bytes) (readErr : Option String)

/-- The files, by the components of their paths. -/
abbrev Files : Type := List (Component OsChar) → Option Bytes

/-- The answers of network and file system during an update; `net i` answers the `i`-th
request. -/
structure UpdateHost where
  net : ℕ → String → Reply
  pid : ℕ
  nanos : ℕ
  createErr : Option String := none
  openErr : Option String := none
  writeErr : ℕ → Option String := fun _ => none
  readErr : Option String := none
  removeErr : Option String := none
  chmodErr : Option String := none
  renameErr : Option String := none

/-- `http_get` with a limit. -/
def httpGet (reply : Reply) (maxBytes : ℕ) : Except UpdateError Bytes :=
  match reply with
  | .failed e => .error (.http e)
  | .response status reads readErr =>
      if status ≠ 200 then .error (.http (toString status))
      else
        -- an empty read is the end of the body
        let body := reads.takeWhile (· ≠ [])
        if maxBytes ≤ body.flatten.length then .ok (body.flatten.take maxBytes)
        else if body.length < reads.length then .ok body.flatten
        else match readErr with
          | some e => .error (.http e)
          | none => .ok body.flatten

/-- The loop of `download_into`: what has been written, and the outcome.  `limit` is what `take`
still lets through. -/
def downloadLoop (host : UpdateHost) (readErr : Option String) :
    ℕ → Bytes → List Bytes → Bytes × Except UpdateError Unit
  | _, written, [] =>
      match readErr with
      | some e => (written, .error (.downloadWrite e))
      | none => (written, .ok ())
  | limit, written, read :: reads =>
      let buf := read.take limit
      if buf = [] then (written, .ok ())
      else if written.length + buf.length > maxDownloadSize then
        (written, .error (.downloadTooLarge maxDownloadSize))
      else match host.writeErr written.length with
        | some e => (written, .error (.downloadWrite e))
        | none => downloadLoop host readErr (limit - buf.length) (written ++ buf) reads

/-- `download_into`. -/
def downloadInto (host : UpdateHost) (reply : Reply) : Bytes × Except UpdateError Unit :=
  match reply with
  | .failed e => ([], .error (.downloadStatus e))
  | .response status reads readErr =>
      if status ≠ 200 then ([], .error (.downloadStatus (toString status)))
      else downloadLoop host readErr (maxDownloadSize + 1) [] reads

/-! ### The update -/

/-- The path of `tempfile_in`. -/
def tempPath (host : UpdateHost) (exe : OsStr) : OsStr :=
  join ((parent exe).getD (OsStr.ofString "."))
    (OsStr.ofString ("unitpm-update-" ++ toString host.pid ++ "-" ++ toString host.nanos))

/-- `tempfile_in`. -/
def tempfileIn (host : UpdateHost) (files : Files) (exe : OsStr) :
    Except UpdateError (Files × List (Component OsChar)) :=
  let key := components (tempPath host exe)
  if (files key).isSome then .error (.tempFile "File exists (os error 17)")
  else match host.createErr with
    | some e => .error (.tempFile e)
    | none => .ok (Function.update files key (some []), key)

/-- The check of the signature on what has been downloaded. -/
def checkSignature (crypto : Crypto κ) (host : UpdateHost) (key : κ) (sigUrl : String)
    (downloaded : Bytes) : Except UpdateError Unit :=
  match httpGet (host.net 1 sigUrl) 4096 with
  | .error e => .error e
  | .ok raw =>
      match decodeSignature crypto raw with
      | .error e => .error e
      | .ok sig =>
          match host.readErr with
          | some e => .error (.io e)
          | none => if crypto.verify key downloaded sig then .ok () else .error .signatureInvalid

/-- `sig_present`, and the check when it holds. -/
def checkDownload (crypto : Crypto κ) (host : UpdateHost) (key : κ) (sigUrl : Option String)
    (allowUnsigned : Bool) (downloaded : Bytes) : Except UpdateError Unit :=
  match sigUrl with
  | some url =>
      if pubKeyIsPresent && !allowUnsigned then checkSignature crypto host key url downloaded
      else .ok ()
  | none => .ok ()

/-- The permissions, and the rename over the running binary. -/
def swapIn (host : UpdateHost) (files : Files) (tmp exe : List (Component OsChar)) :
    Files × Except UpdateError Unit :=
  match host.chmodErr with
  | some e => (files, .error (.chmod e))
  | none =>
      match host.renameErr with
      | some e => (files, .error (.rename e))
      | none => (Function.update (Function.update files tmp none) exe (files tmp), .ok ())

/-- `download_and_replace`. -/
def downloadAndReplace (crypto : Crypto κ) (host : UpdateHost) (key : κ) (files : Files)
    (assetUrl : String) (sigUrl : Option String) (exe : OsStr) (allowUnsigned : Bool) :
    Files × Except UpdateError Unit :=
  match tempfileIn host files exe with
  | .error e => (files, .error e)
  | .ok (files, tmp) =>
      match host.openErr with
      | some e => (files, .error (.tempFile e))
      | none =>
          match downloadInto host (host.net 0 assetUrl) with
          | (written, .error e) => (Function.update files tmp (some written), .error e)
          | (written, .ok _) =>
              let files := Function.update files tmp (some written)
              match checkDownload crypto host key sigUrl allowUnsigned written with
              | .error .signatureInvalid =>
                  -- the download is removed if it can be
                  (if host.removeErr.isNone then Function.update files tmp none else files,
                    .error .signatureInvalid)
              | .error e => (files, .error e)
              | .ok _ => swapIn host files tmp (components exe)

/-- `apply_to_path_with_key`. -/
def applyToPathWithKey (pl : Platform) (crypto : Crypto κ) (host : UpdateHost) (files : Files)
    (exe : OsStr) (release : Release) (opts : ApplyOptions) (key : κ) :
    Files × Except UpdateError Unit :=
  let target := pl.assetBasename
  let sigTarget := target ++ ".sig"
  match assetUrls target sigTarget release.assets with
  | (none, _) => (files, .error (.noCompatibleBinary pl.os pl.arch release.tagName))
  | (some assetUrl, sigUrl) =>
      if pubKeyIsPresent = false ∧ opts.allowUnsigned = false then
        (files, .error (.signatureRequiredWith
          "release signing key is not configured in this build"))
      else if pubKeyIsPresent = true ∧ sigUrl = none ∧ opts.allowUnsigned = false then
        (files, .error (.signatureRequiredWith
          ("no " ++ sigTarget ++ " asset in release " ++ release.tagName)))
      else downloadAndReplace crypto host key files assetUrl sigUrl exe opts.allowUnsigned

/-! ### The assets of a release -/

theorem assetUrls_concat (target sigTarget : String) (assets : List Asset) (a : Asset) :
    assetUrls target sigTarget (assets ++ [a]) =
      if a.name = target then (some a.browserDownloadUrl, (assetUrls target sigTarget assets).2)
      else if a.name = sigTarget then
        ((assetUrls target sigTarget assets).1, some a.browserDownloadUrl)
      else assetUrls target sigTarget assets := by
  simp [assetUrls, List.foldl_append]

/-- The address found for the signature is that of an asset with its name. -/
theorem exists_asset_of_assetUrls_snd {target sigTarget u : String} {assets : List Asset}
    (h : (assetUrls target sigTarget assets).2 = some u) :
    ∃ a ∈ assets, a.name = sigTarget ∧ a.browserDownloadUrl = u := by
  induction assets using List.reverseRecOn with
  | nil => simp [assetUrls] at h
  | append_singleton assets a ih =>
      rw [assetUrls_concat] at h
      by_cases hsig : a.name ≠ target ∧ a.name = sigTarget
      · rw [if_neg hsig.1, if_pos hsig.2] at h
        exact ⟨a, by simp, hsig.2, by simpa using h⟩
      · have hkept : (assetUrls target sigTarget assets).2 = some u := by
          grind
        obtain ⟨b, hb, hname, hurl⟩ := ih hkept
        exact ⟨b, by simp [hb], hname, hurl⟩

theorem assetUrls_fst_eq_none_iff (target sigTarget : String) (assets : List Asset) :
    (assetUrls target sigTarget assets).1 = none ↔ ∀ a ∈ assets, a.name ≠ target := by
  induction assets using List.reverseRecOn with
  | nil => simp [assetUrls]
  | append_singleton assets a ih =>
      rw [assetUrls_concat]
      by_cases htarget : a.name = target
      · simp [htarget]
      · have hfst : (if a.name = sigTarget then
            ((assetUrls target sigTarget assets).1, some a.browserDownloadUrl)
            else assetUrls target sigTarget assets).1 = (assetUrls target sigTarget assets).1 := by
          split_ifs <;> rfl
        rw [if_neg htarget, hfst, ih]
        simp only [List.mem_append, List.mem_singleton]
        constructor
        · rintro h b (hb | rfl)
          · exact h b hb
          · exact htarget
        · exact fun h b hb => h b (.inl hb)

/-! ### What an update leaves at the path of the binary -/

/-- The bytes `b` carry a signature of the release: it is decoded from the reply to the request for
one of the release's `.sig` assets, and verifies under the key. -/
def Signed (pl : Platform) (crypto : Crypto κ) (host : UpdateHost) (release : Release) (key : κ)
    (b : Bytes) : Prop :=
  ∃ a ∈ release.assets, a.name = pl.assetBasename ++ ".sig" ∧
    ∃ raw sig, httpGet (host.net 1 a.browserDownloadUrl) 4096 = .ok raw ∧
      decodeSignature crypto raw = .ok sig ∧ crypto.verify key b sig = true

/-- The temporary file is not the binary itself.  `create_new` sees to that where there is a file
to replace. -/
def TempApart (host : UpdateHost) (files : Files) (exe : OsStr) : Prop :=
  files (components exe) = none → components (tempPath host exe) ≠ components exe

theorem pubKeyIsPresent_eq : pubKeyIsPresent = true := by decide

theorem tempfileIn_ok {host : UpdateHost} {files files' : Files} {exe : OsStr}
    {tmp : List (Component OsChar)} (h : tempfileIn host files exe = .ok (files', tmp)) :
    tmp = components (tempPath host exe) ∧ files tmp = none ∧
      files' = Function.update files tmp (some []) := by
  unfold tempfileIn at h
  dsimp only at h
  split_ifs at h with hsome
  split at h
  · simp at h
  · simp only [Except.ok.injEq, Prod.mk.injEq] at h
    obtain ⟨rfl, rfl⟩ := h
    exact ⟨rfl, by simpa using hsome, rfl⟩

theorem checkSignature_ok {crypto : Crypto κ} {host : UpdateHost} {key : κ} {url : String}
    {b : Bytes} {u : Unit} (h : checkSignature crypto host key url b = .ok u) :
    ∃ raw sig, httpGet (host.net 1 url) 4096 = .ok raw ∧ decodeSignature crypto raw = .ok sig ∧
      crypto.verify key b sig = true := by
  unfold checkSignature at h
  split at h
  · simp at h
  · rename_i raw hraw
    split at h
    · simp at h
    · rename_i sig hsig
      split at h
      · simp at h
      · split_ifs at h with hverify
        exact ⟨raw, sig, hraw, hsig, hverify⟩

/-- What `swapIn` leaves at the path of the binary: the temporary file when it succeeds, and what
was there when it fails. -/
theorem swapIn_exe (host : UpdateHost) (files : Files) (tmp exe : List (Component OsChar)) :
    (∃ e, swapIn host files tmp exe = (files, .error e)) ∨
      ∃ files', swapIn host files tmp exe = (files', .ok ()) ∧ files' exe = files tmp := by
  unfold swapIn
  split
  · exact .inl ⟨_, rfl⟩
  · split
    · exact .inl ⟨_, rfl⟩
    · exact .inr ⟨_, rfl, by simp⟩

/-- **What a replacement leaves.** The binary is as it was and the replacement has failed, or it
holds what was downloaded and checked. -/
theorem downloadAndReplace_exe {crypto : Crypto κ} {host : UpdateHost} {key : κ} {files : Files}
    {assetUrl : String} {sigUrl : Option String} {exe : OsStr} {allowUnsigned : Bool}
    (hexe : TempApart host files exe) {files' : Files} {result : Except UpdateError Unit}
    (h : downloadAndReplace crypto host key files assetUrl sigUrl exe allowUnsigned =
      (files', result)) :
    (files' (components exe) = files (components exe) ∧ ∃ e, result = .error e) ∨
      ∃ written, files' (components exe) = some written ∧ result = .ok () ∧
        checkDownload crypto host key sigUrl allowUnsigned written = .ok () := by
  unfold downloadAndReplace at h
  split at h
  case h_1 e htemp =>
      obtain ⟨rfl, rfl⟩ := Prod.mk.inj h
      exact .inl ⟨rfl, e, rfl⟩
  case h_2 files₁ tmp htemp =>
      obtain ⟨htmp, hnone, rfl⟩ := tempfileIn_ok htemp
      -- from here on only the temporary file changes, up to the rename
      have hne : components exe ≠ tmp := by
        rintro rfl
        exact hexe hnone htmp.symm
      have hkept : ∀ content, Function.update (Function.update files tmp (some [])) tmp content
          (components exe) = files (components exe) := by
        intro content
        rw [Function.update_of_ne hne, Function.update_of_ne hne]
      split at h
      case h_1 e hopen =>
          obtain ⟨rfl, rfl⟩ := Prod.mk.inj h
          exact .inl ⟨Function.update_of_ne hne _ _, _, rfl⟩
      case h_2 hopen =>
          split at h
          case h_1 written e hdown =>
              obtain ⟨rfl, rfl⟩ := Prod.mk.inj h
              exact .inl ⟨hkept _, _, rfl⟩
          case h_2 written _ hdown =>
              dsimp only at h
              split at h
              case h_1 hcheck =>
                  obtain ⟨rfl, rfl⟩ := Prod.mk.inj h
                  refine .inl ⟨?_, _, rfl⟩
                  split_ifs
                  · rw [Function.update_of_ne hne, hkept]
                  · exact hkept _
              case h_2 e _ hcheck =>
                  obtain ⟨rfl, rfl⟩ := Prod.mk.inj h
                  exact .inl ⟨hkept _, _, rfl⟩
              case h_3 u hcheck =>
                  obtain ⟨e, hswap⟩ | ⟨files₂, hswap, hmoved⟩ :=
                    swapIn_exe host (Function.update (Function.update files tmp (some [])) tmp
                      (some written)) tmp (components exe)
                  · rw [hswap] at h
                    obtain ⟨rfl, rfl⟩ := Prod.mk.inj h
                    exact .inl ⟨hkept _, _, rfl⟩
                  · rw [hswap] at h
                    obtain ⟨rfl, rfl⟩ := Prod.mk.inj h
                    exact .inr ⟨written, by rw [hmoved, Function.update_self], rfl, hcheck⟩

/-- **What an update leaves.** -/
theorem applyToPathWithKey_exe {pl : Platform} {crypto : Crypto κ} {host : UpdateHost}
    {files : Files} {exe : OsStr} {release : Release} {opts : ApplyOptions} {key : κ}
    (hexe : TempApart host files exe) {files' : Files} {result : Except UpdateError Unit}
    (h : applyToPathWithKey pl crypto host files exe release opts key = (files', result)) :
    (files' (components exe) = files (components exe) ∧ ∃ e, result = .error e) ∨
      ∃ written, files' (components exe) = some written ∧ result = .ok () ∧
        (opts.allowUnsigned = false → Signed pl crypto host release key written) := by
  unfold applyToPathWithKey at h
  dsimp only at h
  split at h
  case h_1 _ hurls =>
      obtain ⟨rfl, rfl⟩ := Prod.mk.inj h
      exact .inl ⟨rfl, _, rfl⟩
  case h_2 assetUrl sigUrl hurls =>
      split_ifs at h with hkey hsig
      · obtain ⟨rfl, rfl⟩ := Prod.mk.inj h
        exact .inl ⟨rfl, _, rfl⟩
      · obtain ⟨rfl, rfl⟩ := Prod.mk.inj h
        exact .inl ⟨rfl, _, rfl⟩
      · obtain hkept | ⟨written, hexe', hok, hcheck⟩ := downloadAndReplace_exe hexe h
        · exact .inl hkept
        · refine .inr ⟨written, hexe', hok, fun hunsigned => ?_⟩
          -- the match of the caller leaves a `.sig` address, so the check was made
          cases sigUrl with
          | none => exact absurd ⟨pubKeyIsPresent_eq, rfl, hunsigned⟩ hsig
          | some url =>
              rw [checkDownload, pubKeyIsPresent_eq, hunsigned] at hcheck
              obtain ⟨a, ha, hname, rfl⟩ :=
                exists_asset_of_assetUrls_snd (congrArg Prod.snd hurls)
              exact ⟨a, ha, hname, checkSignature_ok hcheck⟩

/-- **The update fails closed.** Without `allow_unsigned` the binary changes only to bytes that a
signature of the release verifies, and a failed update leaves it as it was. -/
theorem applyToPathWithKey_failClosed (pl : Platform) (crypto : Crypto κ) (host : UpdateHost)
    (files : Files) (exe : OsStr) (release : Release) (opts : ApplyOptions) (key : κ)
    (hopts : opts.allowUnsigned = false) (hexe : TempApart host files exe) :
    let update := applyToPathWithKey pl crypto host files exe release opts key
    (update.1 (components exe) ≠ files (components exe) →
      ∃ b, update.1 (components exe) = some b ∧ Signed pl crypto host release key b) ∧
    (∀ e, update.2 = .error e → update.1 (components exe) = files (components exe)) := by
  intro update
  obtain ⟨hkept, e, hfail⟩ | ⟨written, hexe', hok, hsigned⟩ :=
    applyToPathWithKey_exe hexe (show applyToPathWithKey pl crypto host files exe release opts key
      = (update.1, update.2) from rfl)
  · exact ⟨fun hchanged => absurd hkept hchanged, fun _ _ => hkept⟩
  · refine ⟨fun _ => ⟨written, hexe', hsigned hopts⟩, fun e hfail => ?_⟩
    rw [hok] at hfail
    cases hfail

/-! A key with its signature of the empty message, and a release signed so. -/

def vectorKey : Bytes :=
  [0xd7, 0x5a, 0x98, 0x01, 0x82, 0xb1, 0x0a, 0xb7, 0xd5, 0x4b, 0xfe, 0xd3, 0xc9, 0x64, 0x07, 0x3a,
    0x0e, 0xe1, 0x72, 0xf3, 0xda, 0xa6, 0x23, 0x25, 0xaf, 0x02, 0x1a, 0x68, 0xf7, 0x07, 0x51, 0x1a]

def vectorSignature : Bytes :=
  [0xe5, 0x56, 0x43, 0x00, 0xc3, 0x60, 0xac, 0x72, 0x90, 0x86, 0xe2, 0xcc, 0x80, 0x6e, 0x82, 0x8a,
    0x84, 0x87, 0x7f, 0x1e, 0xb8, 0xe5, 0xd9, 0x74, 0xd8, 0x73, 0xe0, 0x65, 0x22, 0x49, 0x01, 0x55,
    0x5f, 0xb8, 0x82, 0x15, 0x90, 0xa3, 0x3b, 0xac, 0xc6, 0x1e, 0x39, 0x70, 0x1c, 0xf9, 0xb4, 0x6b,
    0xd2, 0x5b, 0xf5, 0xf0, 0x59, 0x5b, 0xbe, 0x24, 0x65, 0x51, 0x41, 0x43, 0x8e, 0x7a, 0x10, 0x0b]

/-- The verification, on the one signature known here. -/
def vectorCrypto : Crypto Bytes where
  decode _ _ := none
  verify key b sig := key = vectorKey ∧ b = [] ∧ sig = vectorSignature

def linux : Platform := ⟨"linux", "x86_64"⟩

/-- A release with the binary and its signature. -/
def signedRelease : Release :=
  ⟨"v2.0.0", [⟨"unitpm_linux_x86_64", "https://host/u"⟩, ⟨"unitpm_linux_x86_64.sig",
    "https://host/s"⟩]⟩

/-- A network that serves the body `b`, and the signature of the empty one. -/
def serving (b : Bytes) : UpdateHost where
  net i _ := .response 200 [if i = 0 then b else vectorSignature] none
  pid := 1
  nanos := 0

/-- The installed binary. -/
def installed : Files := fun path =>
  if path = components (OsStr.ofString "/u") then some [0x7f] else none

theorem applyToPathWithKey_failClosed_signed :
    (applyToPathWithKey linux vectorCrypto (serving []) installed (OsStr.ofString "/u")
      signedRelease {} vectorKey).1 (components (OsStr.ofString "/u")) = some [] ∧
    Signed linux vectorCrypto (serving []) signedRelease vectorKey [] := by
  have hnew : (applyToPathWithKey linux vectorCrypto (serving []) installed (OsStr.ofString "/u")
      signedRelease {} vectorKey).1 (components (OsStr.ofString "/u")) = some [] := by
    decide +kernel
  obtain ⟨hchanged, -⟩ := applyToPathWithKey_failClosed linux vectorCrypto (serving []) installed
    (OsStr.ofString "/u") signedRelease {} vectorKey rfl (fun h => by revert h; decide +kernel)
  obtain ⟨b, hb, hsigned⟩ := hchanged (by rw [hnew]; decide +kernel)
  rw [hnew] at hb
  obtain rfl := Option.some.inj hb
  exact ⟨hnew, hsigned⟩

/-! ### Updates with `allow_unsigned` -/

theorem checkDownload_allowUnsigned (crypto : Crypto κ) (host : UpdateHost) (key : κ)
    (sigUrl : Option String) (b : Bytes) :
    checkDownload crypto host key sigUrl true b = .ok () := by
  cases sigUrl with
  | none => rfl
  | some url => simp [checkDownload]

theorem applyToPathWithKey_of_none {pl : Platform} {crypto : Crypto κ} {host : UpdateHost}
    {files : Files} {exe : OsStr} {release : Release} {opts : ApplyOptions} {key : κ}
    (h : (assetUrls pl.assetBasename (pl.assetBasename ++ ".sig") release.assets).1 = none) :
    applyToPathWithKey pl crypto host files exe release opts key =
      (files, .error (.noCompatibleBinary pl.os pl.arch release.tagName)) := by
  simp only [applyToPathWithKey]
  split
  · rfl
  · rename_i assetUrl sigUrl hurls
    rw [hurls] at h
    cases h

theorem applyToPathWithKey_allowUnsigned {pl : Platform} {crypto : Crypto κ} {host : UpdateHost}
    {files : Files} {exe : OsStr} {release : Release} {opts : ApplyOptions} {key : κ}
    {assetUrl : String} (hopts : opts.allowUnsigned = true)
    (h : (assetUrls pl.assetBasename (pl.assetBasename ++ ".sig") release.assets).1 =
      some assetUrl) :
    applyToPathWithKey pl crypto host files exe release opts key =
      downloadAndReplace crypto host key files assetUrl
        (assetUrls pl.assetBasename (pl.assetBasename ++ ".sig") release.assets).2 exe true := by
  simp only [applyToPathWithKey]
  split
  · rename_i _ hurls
    rw [hurls] at h
    cases h
  · rename_i url sigUrl hurls
    rw [hurls] at h ⊢
    obtain rfl := Option.some.inj h
    simp [hopts]

/-- A network that serves one byte as the binary and no signature. -/
def servingUnsigned : UpdateHost where
  net i _ := if i = 0 then .response 200 [[0]] none else .failed "connection refused"
  pid := 1
  nanos := 0

theorem downloadAndReplace_servingUnsigned (crypto : Crypto κ) (key : κ) (assetUrl : String)
    (sigUrl : Option String) :
    (downloadAndReplace crypto servingUnsigned key installed assetUrl sigUrl
      (OsStr.ofString "/u") true).1 (components (OsStr.ofString "/u")) = some [0] := by
  have htemp : tempfileIn servingUnsigned installed (OsStr.ofString "/u") =
      .ok (Function.update installed (components (tempPath servingUnsigned (OsStr.ofString "/u")))
        (some []), components (tempPath servingUnsigned (OsStr.ofString "/u"))) := by
    have hnone : (installed
        (components (tempPath servingUnsigned (OsStr.ofString "/u")))).isSome = false := by
      decide +kernel
    simp only [tempfileIn, hnone]
    rfl
  have hdown : downloadInto servingUnsigned (servingUnsigned.net 0 assetUrl) = ([0], .ok ()) := by
    rfl
  simp only [downloadAndReplace, htemp, hdown, checkDownload_allowUnsigned]
  simp [servingUnsigned, swapIn]

/-- **`allow_unsigned` drops the check.** For any release, with a `.sig` asset or not, the binary
changes only to signed bytes, whatever the network answers, exactly when the release has no binary
for the platform. -/
theorem allowUnsigned_verifies_iff (pl : Platform) (crypto : Crypto κ) (release : Release)
    (opts : ApplyOptions) (key : κ) (hopts : opts.allowUnsigned = true) :
    (∀ host files exe, TempApart host files exe →
      let update := applyToPathWithKey pl crypto host files exe release opts key
      update.1 (components exe) ≠ files (components exe) →
        ∃ b, update.1 (components exe) = some b ∧ Signed pl crypto host release key b) ↔
    ∀ a ∈ release.assets, a.name ≠ pl.assetBasename := by
  rw [← assetUrls_fst_eq_none_iff pl.assetBasename (pl.assetBasename ++ ".sig")]
  constructor
  · intro h
    by_contra hsome
    obtain ⟨assetUrl, hurl⟩ := Option.ne_none_iff_exists'.mp hsome
    have hnew : (applyToPathWithKey pl crypto servingUnsigned installed (OsStr.ofString "/u")
        release opts key).1 (components (OsStr.ofString "/u")) = some [0] := by
      rw [applyToPathWithKey_allowUnsigned hopts hurl]
      exact downloadAndReplace_servingUnsigned crypto key _ _
    obtain ⟨b, -, a, -, -, raw, sig, hget, -⟩ := h servingUnsigned installed (OsStr.ofString "/u")
      (fun h => by revert h; decide +kernel) (by rw [hnew]; decide +kernel)
    cases hget
  · intro hnone host files exe _ update hchanged
    refine absurd ?_ hchanged
    simp only [update, applyToPathWithKey_of_none hnone]

/-- A release with a signature and no binary for the platform: there is nothing to install. -/
theorem allowUnsigned_verifies_otherPlatform :
    let release : Release := ⟨"v2.0.0", [⟨"unitpm_linux_x86_64.sig", "https://host/s"⟩]⟩
    (∀ a ∈ release.assets, a.name ≠ linux.assetBasename) ∧
      ∀ host files exe, TempApart host files exe →
        let update := applyToPathWithKey linux vectorCrypto host files exe release ⟨true⟩ vectorKey
        update.1 (components exe) ≠ files (components exe) →
          ∃ b, update.1 (components exe) = some b ∧
            Signed linux vectorCrypto host release vectorKey b := by
  intro release
  have hnone : ∀ a ∈ release.assets, a.name ≠ linux.assetBasename := by decide +kernel
  exact ⟨hnone, (allowUnsigned_verifies_iff linux vectorCrypto release ⟨true⟩ vectorKey rfl).mpr
    hnone⟩

/-- The release is signed, the body served is not what was signed, and it is installed: without the
option the same run refuses it. -/
theorem allowUnsigned_installs_unverified :
    let update := fun opts => applyToPathWithKey linux vectorCrypto (serving [0]) installed
      (OsStr.ofString "/u") signedRelease opts vectorKey
    (update ⟨true⟩).2 = .ok () ∧
      (update ⟨true⟩).1 (components (OsStr.ofString "/u")) = some [0] ∧
      ¬ Signed linux vectorCrypto (serving [0]) signedRelease vectorKey [0] ∧
      (update ⟨false⟩).2 = .error .signatureInvalid ∧
      (update ⟨false⟩).1 (components (OsStr.ofString "/u")) = some [0x7f] := by
  refine ⟨by rfl, by decide +kernel, ?_, by rfl, by decide +kernel⟩
  rintro ⟨a, -, -, raw, sig, -, -, hverify⟩
  simp [vectorCrypto] at hverify

end Unitpm
