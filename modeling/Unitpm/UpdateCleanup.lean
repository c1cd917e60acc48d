import Unitpm.Updater

/-! # What a failed self-update leaves behind

`download_and_replace` makes its temporary file next to the binary and then has eight steps that can
fail.  Only where the signature does not verify is the file removed again: an update that fails at
any other step behind `tempfile_in` leaves it in the directory of the binary.

`failedUpdate_keepsDirectory_iff`: a failed update leaves the directory as it was exactly when the
temporary file was not made, or no other step failed (`CleanRun`). -/

namespace Unitpm

open Rust.Path Fs

variable {κ : Type}

/-! ### The download -/

/-- The reads that make up a body: an empty one is its end. -/
def bodyReads (reads : List Bytes) : List Bytes := reads.takeWhile (· ≠ [])

/-- What `reads` deliver is written behind `offset` bytes: it is not too long, no write fails, and
the body ends before a read fails. -/
structure Arrives (host : UpdateHost) (readErr : Option String) (offset : ℕ)
    (reads : List Bytes) : Prop where
  fits : offset + (bodyReads reads).flatten.length ≤ maxDownloadSize
  written : ∀ i < (bodyReads reads).length,
    host.writeErr (offset + ((bodyReads reads).take i).flatten.length) = none
  ended : (bodyReads reads).length < reads.length ∨ readErr = none

/-- The reply is a body that arrives. -/
def Downloaded (host : UpdateHost) : Reply → Prop
  | .failed _ => False
  | .response status reads readErr => status = 200 ∧ Arrives host readErr 0 reads

/-- The bytes of a reply. -/
def Reply.body : Reply → Bytes
  | .failed _ => []
  | .response _ reads _ => (bodyReads reads).flatten

section Download

variable {host : UpdateHost} {readErr : Option String} {offset : ℕ} {read : Bytes}
  {reads : List Bytes}

theorem bodyReads_cons (h : read ≠ []) : bodyReads (read :: reads) = read :: bodyReads reads := by
  simp [bodyReads, h]

theorem arrives_nil_iff (hoffset : offset ≤ maxDownloadSize) :
    Arrives host readErr offset [] ↔ readErr = none := by
  constructor
  · intro h
    simpa [bodyReads] using h.ended
  · exact fun h => ⟨by simpa [bodyReads] using hoffset, by simp [bodyReads], .inr h⟩

theorem arrives_of_end (hoffset : offset ≤ maxDownloadSize) :
    Arrives host readErr offset ([] :: reads) :=
  ⟨by simpa [bodyReads] using hoffset, by simp [bodyReads], .inl (by simp [bodyReads])⟩

/-- A body arrives when its first read does, and the others behind it. -/
theorem arrives_cons_iff (hread : read ≠ []) :
    Arrives host readErr offset (read :: reads) ↔
      host.writeErr offset = none ∧ Arrives host readErr (offset + read.length) reads := by
  constructor
  · rintro ⟨hfits, hwritten, hended⟩
    rw [bodyReads_cons hread] at hfits hwritten hended
    refine ⟨by simpa using hwritten 0 (by simp), ?_, ?_, ?_⟩
    · simpa [Nat.add_assoc] using hfits
    · intro i hi
      simpa [Nat.add_assoc] using hwritten (i + 1) (by simpa using hi)
    · simpa using hended
  · rintro ⟨hfirst, hfits, hwritten, hended⟩
    refine ⟨?_, ?_, ?_⟩
    · rw [bodyReads_cons hread]
      simpa [Nat.add_assoc] using hfits
    · intro i hi
      rw [bodyReads_cons hread] at hi ⊢
      cases i with
      | zero => simpa using hfirst
      | succ i => simpa [Nat.add_assoc] using hwritten i (by simpa using hi)
    · rw [bodyReads_cons hread]
      simpa using hended

/-- **The loop of `download_into`** writes the body when it arrives and fails when it does not. -/
theorem downloadLoop_cases (host : UpdateHost) (readErr : Option String) {limit : ℕ}
    {written : Bytes} (hlimit : written.length + limit = maxDownloadSize + 1)
    (hwritten : written.length ≤ maxDownloadSize) (reads : List Bytes) :
    (Arrives host readErr written.length reads ∧ downloadLoop host readErr limit written reads =
      (written ++ (bodyReads reads).flatten, .ok ())) ∨
    (¬ Arrives host readErr written.length reads ∧
      ∃ w e, downloadLoop host readErr limit written reads = (w, .error e)) := by
  induction reads generalizing limit written with
  | nil =>
      rw [arrives_nil_iff hwritten]
      cases readErr with
      | none => exact .inl ⟨rfl, by simp [downloadLoop, bodyReads]⟩
      | some e => exact .inr ⟨by simp, written, _, rfl⟩
  | cons read reads ih =>
      by_cases hread : read = []
      · subst hread
        exact .inl ⟨arrives_of_end hwritten, by simp [downloadLoop, bodyReads]⟩
      · have hbuf : read.take limit ≠ [] := by
          have hpos : 0 < limit := by omega
          simpa [hread] using hpos.ne'
        rw [arrives_cons_iff hread, downloadLoop, if_neg hbuf]
        by_cases hlarge : written.length + (read.take limit).length > maxDownloadSize
        · rw [if_pos hlarge]
          refine .inr ⟨fun h => ?_, _, _, rfl⟩
          have hfits := h.2.fits
          rw [List.length_take] at hlarge
          omega
        · -- the limit of `take` has not cut the read
          have htake : read.take limit = read := by
            rw [List.length_take] at hlarge
            exact List.take_of_length_le (by omega)
          rw [if_neg hlarge, htake]
          rw [htake] at hlarge
          cases hwrite : host.writeErr written.length with
          | some e => exact .inr ⟨by simp, _, _, rfl⟩
          | none =>
              have hlen : (written ++ read).length = written.length + read.length :=
                List.length_append
              have hrest := @ih (limit - read.length) (written ++ read) (by omega) (by omega)
              rw [hlen] at hrest
              obtain ⟨harrives, hloop⟩ | ⟨harrives, w, e, hloop⟩ := hrest
              · refine .inl ⟨⟨rfl, harrives⟩, ?_⟩
                rw [bodyReads_cons hread]
                simpa using hloop
              · exact .inr ⟨fun h => harrives h.2, w, e, hloop⟩

theorem downloadInto_cases (host : UpdateHost) (reply : Reply) :
    (Downloaded host reply ∧ downloadInto host reply = (reply.body, .ok ())) ∨
    (¬ Downloaded host reply ∧ ∃ w e, downloadInto host reply = (w, .error e)) := by
  cases reply with
  | failed e => exact .inr ⟨id, [], _, rfl⟩
  | response status reads readErr =>
      by_cases hstatus : status = 200
      · obtain ⟨harrives, hloop⟩ | ⟨harrives, w, e, hloop⟩ :=
          @downloadLoop_cases host readErr (maxDownloadSize + 1) [] (by simp) (by simp) reads
        · refine .inl ⟨⟨hstatus, harrives⟩, ?_⟩
          simpa [downloadInto, hstatus, Reply.body] using hloop
        · exact .inr ⟨fun h => harrives h.2, w, e, by simpa [downloadInto, hstatus] using hloop⟩
      · exact .inr ⟨fun h => hstatus h.1, [], _, if_pos hstatus⟩

end Download

/-! ### The check of the signature -/

/-- The request for a signature gives `sig`, and the download can be read back to be checked. -/
def Fetched (crypto : Crypto κ) (host : UpdateHost) (url : String) (sig : Bytes) : Prop :=
  ∃ raw, httpGet (host.net 1 url) 4096 = .ok raw ∧ decodeSignature crypto raw = .ok sig ∧
    host.readErr = none

theorem httpGet_ne_signatureInvalid (reply : Reply) (max : ℕ) :
    httpGet reply max ≠ .error .signatureInvalid := by
  unfold httpGet
  split
  · simp
  · dsimp only
    split_ifs
    · simp
    · simp
    · simp
    · split <;> simp

theorem decodeSignature_ne_signatureInvalid (crypto : Crypto κ) (raw : Bytes) :
    decodeSignature crypto raw ≠ .error .signatureInvalid := by
  unfold decodeSignature
  split_ifs
  · simp
  · dsimp only
    split <;> simp

/-- The check compares once it has the signature and the download.  Until then it fails with
other errors than `signatureInvalid`. -/
theorem checkSignature_cases (crypto : Crypto κ) (host : UpdateHost) (key : κ) (url : String)
    (b : Bytes) :
    (∃ sig, Fetched crypto host url sig ∧ checkSignature crypto host key url b =
      if crypto.verify key b sig then .ok () else .error .signatureInvalid) ∨
    ((∀ sig, ¬ Fetched crypto host url sig) ∧
      ∃ e, e ≠ .signatureInvalid ∧ checkSignature crypto host key url b = .error e) := by
  cases hget : httpGet (host.net 1 url) 4096 with
  | error e =>
      refine .inr ⟨?_, e, ?_, by simp [checkSignature, hget]⟩
      · rintro sig ⟨raw, hraw, -⟩
        simp [hget] at hraw
      · rintro rfl
        exact httpGet_ne_signatureInvalid _ _ hget
  | ok raw =>
      cases hdecode : decodeSignature crypto raw with
      | error e =>
          refine .inr ⟨?_, e, ?_, by simp [checkSignature, hget, hdecode]⟩
          · rintro sig ⟨raw', hraw, hsig, -⟩
            rw [hget] at hraw
            obtain rfl := Except.ok.inj hraw
            simp [hdecode] at hsig
          · rintro rfl
            exact decodeSignature_ne_signatureInvalid _ _ hdecode
      | ok sig =>
          cases hread : host.readErr with
          | some e =>
              refine .inr ⟨?_, .io e, by simp, by simp [checkSignature, hget, hdecode, hread]⟩
              rintro sig' ⟨-, -, -, hnone⟩
              simp [hread] at hnone
          | none =>
              exact .inl ⟨sig, ⟨raw, hget, hdecode, hread⟩,
                by simp [checkSignature, hget, hdecode, hread]⟩

theorem fetched_unique {crypto : Crypto κ} {host : UpdateHost} {url : String} {sig sig' : Bytes}
    (h : Fetched crypto host url sig) (h' : Fetched crypto host url sig') : sig = sig' := by
  obtain ⟨raw, hget, hdecode, -⟩ := h
  obtain ⟨raw', hget', hdecode', -⟩ := h'
  rw [hget] at hget'
  obtain rfl := Except.ok.inj hget'
  rw [hdecode] at hdecode'
  exact Except.ok.inj hdecode'

/-! ### The steps behind the temporary file -/

/-- The release and the options let the update begin, and the temporary file is made. -/
structure TempFileMade (pl : Platform) (host : UpdateHost) (files : Files) (exe : OsStr)
    (release : Release) (opts : ApplyOptions) (assetUrl : String) (sigUrl : Option String) :
    Prop where
  urls : assetUrls pl.assetBasename (pl.assetBasename ++ ".sig") release.assets =
    (some assetUrl, sigUrl)
  signed : sigUrl = none → opts.allowUnsigned = true
  free : files (components (tempPath host exe)) = none
  created : host.createErr = none

/-- The signature of the download is looked at, and does not verify. -/
def Refused (crypto : Crypto κ) (host : UpdateHost) (key : κ) (sigUrl : Option String)
    (allowUnsigned : Bool) (b : Bytes) : Prop :=
  allowUnsigned = false ∧ ∃ url sig, sigUrl = some url ∧ Fetched crypto host url sig ∧
    crypto.verify key b sig = false

/-- A signature that is to be checked can be. -/
def Checkable (crypto : Crypto κ) (host : UpdateHost) (sigUrl : Option String)
    (allowUnsigned : Bool) : Prop :=
  ∀ url, sigUrl = some url → allowUnsigned = false → ∃ sig, Fetched crypto host url sig

/-- No step behind the temporary file fails, but it may be that the signature does not verify. -/
structure CleanRun (crypto : Crypto κ) (host : UpdateHost) (key : κ) (assetUrl : String)
    (sigUrl : Option String) (allowUnsigned : Bool) : Prop where
  opened : host.openErr = none
  downloaded : Downloaded host (host.net 0 assetUrl)
  checkable : Checkable crypto host sigUrl allowUnsigned
  swapped : Refused crypto host key sigUrl allowUnsigned (host.net 0 assetUrl).body ∨
    host.chmodErr = none ∧ host.renameErr = none

section Steps

variable {crypto : Crypto κ} {host : UpdateHost} {key : κ} {files : Files} {exe : OsStr}
  {assetUrl : String} {sigUrl : Option String} {allowUnsigned : Bool}

theorem tempfileIn_of_free (hfree : files (components (tempPath host exe)) = none)
    (hcreate : host.createErr = none) :
    tempfileIn host files exe = .ok (Function.update files (components (tempPath host exe))
      (some []), components (tempPath host exe)) := by
  simp [tempfileIn, hfree, hcreate]

/-- The three ways a check can end: passed, refused, or failed before it could compare. -/
theorem checkDownload_cases (crypto : Crypto κ) (host : UpdateHost) (key : κ)
    (sigUrl : Option String) (allowUnsigned : Bool) (b : Bytes) :
    (Checkable crypto host sigUrl allowUnsigned ∧
      ((¬ Refused crypto host key sigUrl allowUnsigned b ∧
        checkDownload crypto host key sigUrl allowUnsigned b = .ok ()) ∨
      (Refused crypto host key sigUrl allowUnsigned b ∧
        checkDownload crypto host key sigUrl allowUnsigned b = .error .signatureInvalid))) ∨
    (¬ Checkable crypto host sigUrl allowUnsigned ∧
      ∃ e, e ≠ .signatureInvalid ∧
        checkDownload crypto host key sigUrl allowUnsigned b = .error e) := by
  cases sigUrl with
  | none =>
      refine .inl ⟨by simp [Checkable], .inl ⟨?_, rfl⟩⟩
      rintro ⟨-, url, -, hurl, -⟩
      cases hurl
  | some url =>
      cases allowUnsigned with
      | true =>
          refine .inl ⟨by simp [Checkable], .inl ⟨?_, checkDownload_allowUnsigned _ _ _ _ _⟩⟩
          rintro ⟨hsigned, -⟩
          cases hsigned
      | false =>
          have hcheck : checkDownload crypto host key (some url) false b =
              checkSignature crypto host key url b := by
            simp [checkDownload, pubKeyIsPresent_eq]
          rw [hcheck]
          obtain ⟨sig, hfetched, heq⟩ | ⟨hnone, e, he, heq⟩ :=
            checkSignature_cases crypto host key url b
          · left
            refine ⟨?_, ?_⟩
            · rintro _ ⟨⟩ -
              exact ⟨sig, hfetched⟩
            · cases hverify : crypto.verify key b sig with
              | true =>
                  refine .inl ⟨?_, by simpa [hverify] using heq⟩
                  rintro ⟨-, _, sig', ⟨⟩, hfetched', hverify'⟩
                  rw [fetched_unique hfetched' hfetched, hverify] at hverify'
                  cases hverify'
              | false =>
                  exact .inr ⟨⟨rfl, url, sig, rfl, hfetched, hverify⟩,
                    by simpa [hverify] using heq⟩
          · right
            refine ⟨fun h => ?_, e, he, heq⟩
            obtain ⟨sig, hsig⟩ := h url rfl rfl
            exact hnone sig hsig

theorem swapIn_cases (host : UpdateHost) (files : Files) (tmp exe : List (Component OsChar)) :
    ((host.chmodErr = none ∧ host.renameErr = none) ∧
      (swapIn host files tmp exe).2 = .ok ()) ∨
    (¬ (host.chmodErr = none ∧ host.renameErr = none) ∧
      ∃ e, swapIn host files tmp exe = (files, .error e)) := by
  unfold swapIn
  cases hchmod : host.chmodErr with
  | some e => exact .inr ⟨by simp, _, rfl⟩
  | none =>
      cases hrename : host.renameErr with
      | some e => exact .inr ⟨by simp, _, rfl⟩
      | none => exact .inl ⟨⟨rfl, rfl⟩, rfl⟩

/-- **One replacement.** In a clean run a failure puts the files back; in any other the replacement
fails and the temporary file stays. -/
theorem downloadAndReplace_cases (hremove : host.removeErr = none)
    (hfree : files (components (tempPath host exe)) = none) (hcreate : host.createErr = none) :
    let update := downloadAndReplace crypto host key files assetUrl sigUrl exe allowUnsigned
    (CleanRun crypto host key assetUrl sigUrl allowUnsigned ∧
      (update.2 = .ok () ∨ update.1 = files)) ∨
    (¬ CleanRun crypto host key assetUrl sigUrl allowUnsigned ∧
      (∃ e, update.2 = .error e) ∧ update.1 (components (tempPath host exe)) ≠ none) := by
  intro update
  unfold update
  generalize htmp : components (tempPath host exe) = tmp at hfree
  have htemp : tempfileIn host files exe = .ok (Function.update files tmp (some []), tmp) := by
    rw [← htmp] at hfree ⊢
    exact tempfileIn_of_free hfree hcreate
  simp only [downloadAndReplace, htemp]
  cases hopen : host.openErr with
  | some e => exact .inr ⟨fun h => by simp [h.opened] at hopen, ⟨_, rfl⟩, by simp⟩
  | none =>
      obtain ⟨hdownloaded, hdown⟩ | ⟨hdownloaded, w, e, hdown⟩ :=
        downloadInto_cases host (host.net 0 assetUrl)
      · simp only [hdown]
        obtain ⟨hcheckable, ⟨hrefused, hcheck⟩ | ⟨hrefused, hcheck⟩⟩ |
            ⟨hcheckable, e, he, hcheck⟩ :=
          checkDownload_cases crypto host key sigUrl allowUnsigned (host.net 0 assetUrl).body
        · -- the signature is right or not looked at: what is left is the swap
          simp only [hcheck]
          obtain ⟨hswap, hok⟩ | ⟨hswap, e, hfail⟩ := swapIn_cases host
            (Function.update (Function.update files tmp (some [])) tmp
              (some (host.net 0 assetUrl).body)) tmp (components exe)
          · exact .inl ⟨⟨hopen, hdownloaded, hcheckable, .inr hswap⟩, .inl hok⟩
          · rw [hfail]
            exact .inr ⟨fun h => h.swapped.elim hrefused hswap, ⟨e, rfl⟩, by simp⟩
        · refine .inl ⟨⟨hopen, hdownloaded, hcheckable, .inl hrefused⟩, .inr ?_⟩
          simp only [hcheck, hremove]
          funext path
          by_cases hpath : path = tmp
          · simp [hpath, hfree]
          · simp [hpath]
        · simp only [hcheck]
          cases e with
          | signatureInvalid => exact absurd rfl he
          | _ => exact .inr ⟨fun h => hcheckable h.checkable, ⟨_, rfl⟩, by simp⟩
      · simp only [hdown]
        exact .inr ⟨fun h => hdownloaded h.downloaded, ⟨_, rfl⟩, by simp⟩

end Steps

/-! ### The directory of the binary -/

/-- The name of the temporary file. -/
def tempText (host : UpdateHost) : String :=
  "unitpm-update-" ++ toString host.pid ++ "-" ++ toString host.nanos

/-- `exe_path.parent()`, or the working directory. -/
def exeDir (exe : OsStr) : OsStr := (parent exe).getD (OsStr.ofString ".")

/-- The directory of the binary holds the same files with the same bytes. -/
def SameDirectory (files files' : Files) (exe : OsStr) : Prop :=
  ∀ n : FileName, files' (components (exeDir exe) ++ [.normal n.1]) =
    files (components (exeDir exe) ++ [.normal n.1])

theorem tempText_toList (host : UpdateHost) :
    (tempText host).toList = "unitpm-update-".toList ++
      (Nat.toDigits 10 host.pid ++ '-' :: Nat.toDigits 10 host.nanos) := by
  have hdigits : ∀ n : ℕ, (toString n).toList = Nat.toDigits 10 n := fun n => String.toList_ofList
  change ("unitpm-update-" ++ toString host.pid ++ "-" ++ toString host.nanos).toList = _
  rw [String.toList_append, String.toList_append, String.toList_append, hdigits, hdigits,
    List.append_assoc, List.append_assoc]
  rfl

theorem validName_tempText (host : UpdateHost) : ValidName (OsStr.ofString (tempText host)) := by
  have hchars : ∀ c ∈ (tempText host).toList, c ≠ '/' := by
    intro c hc
    rw [tempText_toList] at hc
    simp only [List.mem_append, List.mem_cons] at hc
    obtain hc | hc | rfl | hc := hc
    · rintro rfl
      revert hc
      decide +kernel
    · rintro rfl
      exact absurd (Nat.isDigit_of_mem_toDigits (by decide) (by decide) hc) (by decide)
    · decide
    · rintro rfl
      exact absurd (Nat.isDigit_of_mem_toDigits (by decide) (by decide) hc) (by decide)
  obtain ⟨cs, hcs⟩ : ∃ cs, OsStr.ofString (tempText host) = .char 'u' :: cs := by
    rw [OsStr.ofString, tempText_toList]
    exact ⟨_, rfl⟩
  refine ⟨?_, ?_, ?_, ?_⟩
  · rw [hcs]
    simp
  · rw [hcs]
    simp [PathChar.dot]
  · rw [hcs]
    simp [PathChar.dot]
  · intro h
    obtain ⟨c, hc, hsep⟩ := List.mem_map.mp h
    exact hchars c hc (OsChar.char.inj hsep)

theorem components_tempPath (host : UpdateHost) (exe : OsStr) :
    components (tempPath host exe) =
      components (exeDir exe) ++ [.normal (OsStr.ofString (tempText host))] :=
  components_join_fileName (exeDir exe) ⟨_, validName_tempText host⟩

section Update

variable {pl : Platform} {crypto : Crypto κ} {host : UpdateHost} {files : Files} {exe : OsStr}
  {release : Release} {opts : ApplyOptions} {key : κ}

theorem applyToPathWithKey_of_some {assetUrl : String} {sigUrl : Option String}
    (hurls : assetUrls pl.assetBasename (pl.assetBasename ++ ".sig") release.assets =
      (some assetUrl, sigUrl)) :
    applyToPathWithKey pl crypto host files exe release opts key =
      if sigUrl = none ∧ opts.allowUnsigned = false then
        (files, .error (.signatureRequiredWith
          ("no " ++ (pl.assetBasename ++ ".sig") ++ " asset in release " ++ release.tagName)))
      else downloadAndReplace crypto host key files assetUrl sigUrl exe opts.allowUnsigned := by
  simp [applyToPathWithKey, hurls, pubKeyIsPresent_eq]

theorem downloadAndReplace_of_not_made {assetUrl : String} {sigUrl : Option String}
    {allowUnsigned : Bool}
    (h : ¬ (files (components (tempPath host exe)) = none ∧ host.createErr = none)) :
    (downloadAndReplace crypto host key files assetUrl sigUrl exe allowUnsigned).1 = files := by
  obtain ⟨e, htemp⟩ : ∃ e, tempfileIn host files exe = .error e := by
    unfold tempfileIn
    dsimp only
    split_ifs with hsome
    · exact ⟨_, rfl⟩
    · cases hcreate : host.createErr with
      | some e => exact ⟨_, rfl⟩
      | none => exact absurd ⟨by simpa using hsome, hcreate⟩ h
  simp [downloadAndReplace, htemp]

/-- An update that does not come to the temporary file changes nothing; one that does is a
replacement. -/
theorem applyToPathWithKey_cases (pl : Platform) (crypto : Crypto κ) (host : UpdateHost)
    (files : Files) (exe : OsStr) (release : Release) (opts : ApplyOptions) (key : κ) :
    (∃ assetUrl sigUrl, TempFileMade pl host files exe release opts assetUrl sigUrl ∧
      applyToPathWithKey pl crypto host files exe release opts key =
        downloadAndReplace crypto host key files assetUrl sigUrl exe opts.allowUnsigned) ∨
    ((∀ assetUrl sigUrl, ¬ TempFileMade pl host files exe release opts assetUrl sigUrl) ∧
      (applyToPathWithKey pl crypto host files exe release opts key).1 = files) := by
  rcases hurls : assetUrls pl.assetBasename (pl.assetBasename ++ ".sig") release.assets with
    ⟨_ | assetUrl, sigUrl⟩
  · right
    refine ⟨fun assetUrl sigUrl' hmade => ?_, ?_⟩
    · have := hmade.urls
      simp [hurls] at this
    · rw [applyToPathWithKey_of_none (by rw [hurls])]
  · rw [applyToPathWithKey_of_some hurls]
    by_cases hsigned : sigUrl = none ∧ opts.allowUnsigned = false
    · rw [if_pos hsigned]
      refine .inr ⟨fun assetUrl' sigUrl' hmade => ?_, rfl⟩
      have := hmade.signed
      obtain ⟨-, rfl⟩ := Prod.mk.inj (hurls.symm.trans hmade.urls)
      simp [hsigned] at this
    · rw [if_neg hsigned]
      by_cases hmade : files (components (tempPath host exe)) = none ∧ host.createErr = none
      · refine .inl ⟨assetUrl, sigUrl, ⟨hurls, fun hnone => ?_, hmade.1, hmade.2⟩, rfl⟩
        by_contra hopts
        exact hsigned ⟨hnone, by simpa using hopts⟩
      · exact .inr ⟨fun _ _ h => hmade ⟨h.free, h.created⟩, downloadAndReplace_of_not_made hmade⟩

theorem tempFileMade_unique {assetUrl assetUrl' : String} {sigUrl sigUrl' : Option String}
    (h : TempFileMade pl host files exe release opts assetUrl sigUrl)
    (h' : TempFileMade pl host files exe release opts assetUrl' sigUrl') :
    assetUrl = assetUrl' ∧ sigUrl = sigUrl' := by
  simpa using h.urls.symm.trans h'.urls

/-- **What a failed update leaves behind.** The directory of the binary is as it was after every
failure exactly when the temporary file was not made, or nothing but the signature of the download
was wrong. -/
theorem failedUpdate_keepsDirectory_iff (pl : Platform) (crypto : Crypto κ) (host : UpdateHost)
    (files : Files) (exe : OsStr) (release : Release) (opts : ApplyOptions) (key : κ)
    (hremove : host.removeErr = none) :
    let update := applyToPathWithKey pl crypto host files exe release opts key
    (∀ e, update.2 = .error e → SameDirectory files update.1 exe) ↔
      ∀ assetUrl sigUrl, TempFileMade pl host files exe release opts assetUrl sigUrl →
        CleanRun crypto host key assetUrl sigUrl opts.allowUnsigned := by
  intro update
  obtain ⟨assetUrl, sigUrl, hmade, hupdate⟩ | ⟨hnot, hsame⟩ :=
    applyToPathWithKey_cases pl crypto host files exe release opts key
  · obtain ⟨hclean, hkept⟩ | ⟨hclean, ⟨e, he⟩, hleft⟩ :=
      @downloadAndReplace_cases κ crypto host key files exe assetUrl sigUrl opts.allowUnsigned
        hremove hmade.free hmade.created
    · refine ⟨fun _ assetUrl' sigUrl' hmade' => ?_, fun _ e he => ?_⟩
      · obtain ⟨rfl, rfl⟩ := tempFileMade_unique hmade hmade'
        exact hclean
      · rw [← hupdate] at hkept
        obtain hok | hsame := hkept
        · exact absurd (he.symm.trans hok) (by simp)
        · exact fun n => congrFun hsame _
    · constructor
      · -- the file that stays is one the directory did not hold
        intro h
        rw [← hupdate] at he hleft
        have hdir := h e he ⟨_, validName_tempText host⟩
        rw [← components_tempPath, hmade.free] at hdir
        exact absurd hdir hleft
      · exact fun h => absurd (h assetUrl sigUrl hmade) hclean
  · refine ⟨fun _ assetUrl sigUrl hmade => absurd hmade (hnot assetUrl sigUrl), fun _ e _ n => ?_⟩
    exact congrFun hsame _

/-- A network on which the download of the binary fails. -/
def offline : UpdateHost where
  net _ _ := .failed "connection refused"
  pid := 1
  nanos := 0

/-- The download fails, and the empty temporary file stays next to the binary. -/
theorem offline_leavesTempFile :
    let update := applyToPathWithKey linux vectorCrypto offline installed (OsStr.ofString "/u")
      signedRelease {} vectorKey
    offline.removeErr = none ∧ update.2 = .error (.downloadStatus "connection refused") ∧
      update.1 (components (OsStr.ofString "/unitpm-update-1-0")) = some [] ∧
      ¬ SameDirectory installed update.1 (OsStr.ofString "/u") := by
  have hleft : (applyToPathWithKey linux vectorCrypto offline installed (OsStr.ofString "/u")
      signedRelease {} vectorKey).1 (components (OsStr.ofString "/unitpm-update-1-0")) =
      some [] := by
    decide +kernel
  refine ⟨rfl, by rfl, hleft, fun h => ?_⟩
  have hname := h ⟨_, validName_tempText offline⟩
  rw [← components_tempPath] at hname
  have hpath : components (tempPath offline (OsStr.ofString "/u")) =
      components (OsStr.ofString "/unitpm-update-1-0") := by decide +kernel
  rw [hpath, hleft] at hname
  revert hname
  decide +kernel

/-- The body does not verify under the key: the update fails and the download is removed. -/
theorem refusedUpdate_keepsDirectory :
    let update := applyToPathWithKey linux vectorCrypto (serving [0]) installed
      (OsStr.ofString "/u") signedRelease {} vectorKey
    update.2 = .error .signatureInvalid ∧
      SameDirectory installed update.1 (OsStr.ofString "/u") := by
  have hfail : (applyToPathWithKey linux vectorCrypto (serving [0]) installed
      (OsStr.ofString "/u") signedRelease {} vectorKey).2 = .error .signatureInvalid := by rfl
  refine ⟨hfail, (failedUpdate_keepsDirectory_iff linux vectorCrypto (serving [0]) installed
    (OsStr.ofString "/u") signedRelease {} vectorKey rfl).mpr ?_ _ hfail⟩
  intro assetUrl sigUrl _
  refine ⟨rfl, ⟨rfl, ?_⟩, fun url _ _ => ⟨vectorSignature, vectorSignature, by rfl, by rfl, rfl⟩,
    .inr ⟨rfl, rfl⟩⟩
  exact (arrives_cons_iff (by simp)).mpr ⟨rfl, (arrives_nil_iff (by decide)).mpr rfl⟩

end Update

end Unitpm
