import Elyra.Correlation.Engine
import Elyra.Python.Exceptions
import Elyra.Python.Raising
import Elyra.Python.Sha256
import Elyra.Python.Words

set_option autoImplicit false

/-! # The updater of the assistant

`check_for_update` and `download_and_launch` of `ai/updater.py`. The release names its assets; the last
asset of a name with a GitHub address counts. The installer is started once the first line of the
checksum file that mentions its name begins with its digest, and without a checksum file it is started
unchecked. -/

namespace Elyra.Update

open Elyra.Python Elyra.Correlation

structure UpdateInfo where
  currentVersion : PyStr
  latestVersion : PyStr
  installerUrl : PyStr
  installerName : PyStr
  checksumUrl : Option PyStr
  deriving DecidableEq

/-- `_version_tuple`. -/
def versionTuple (value : PyStr) : List Int :=
  match (((removePrefix (py "v") value).splitOn 46).take 3).mapM intOfStr with
  | some numbers => numbers
  | none => [0]

section Release

variable {F : Type} [FloatNum F]

/-- The address of the asset, if it has the name and is on GitHub. -/
def assetUrl (name : PyStr) : Json F → Option PyStr
  | .obj asset =>
      if textOr asset "name" [] = name ∧ (py "https://github.com/").isPrefixOf
          (textOr asset "browser_download_url" []) then
        some (textOr asset "browser_download_url" [])
      else none
  | _ => none

/-- The body of the loop over the assets: `installer_url` and `checksum_url`. -/
def assetStep (wanted : PyStr) (urls : Option PyStr × Option PyStr) (asset : Json F) :
    Option PyStr × Option PyStr :=
  ((assetUrl wanted asset).or urls.1, (assetUrl (py "SHA256SUMS.txt") asset).or urls.2)

/-- `check_for_update`, given the answer of `_read_json`. -/
def checkForUpdate (disabled : Bool) (system : PyStr) (release : Except Exc (Mapping F))
    (currentVersion : PyStr) : Except Exc (Option UpdateInfo) := do
  if disabled then return none
  if system ≠ py "Windows" then return none
  let release ← release
  let latest := removePrefix (py "v") (textOr release "tag_name" [])
  if latest = [] ∨ ¬ versionTuple currentVersion < versionTuple latest then return none
  match lookup (py "assets") release with
  | some (.arr assets) =>
      let wanted := py "ELYRA-AI-Setup-" ++ latest ++ py "-x64.exe"
      let urls := assets.foldl (assetStep wanted) (none, none)
      match urls.1 with
      | some installerUrl => return some ⟨currentVersion, latest, installerUrl, wanted, urls.2⟩
      | none => return none
  | _ => return none

end Release

/-! ## Downloading and starting -/

/-- What `download_and_launch` meets: the temporary directory, the answers to the first and the second
    request, stored in files, and `subprocess.Popen`. -/
structure Outside where
  mkdtemp : Except Exc PyStr
  /-- `directory / name` -/
  child : PyStr → PyStr → PyStr
  first : PyStr → Except Exc Bytes
  second : PyStr → Except Exc Bytes
  popen : PyStr → Except Exc Unit

/-- The text of the checksum file. -/
def checksumLines (data : Bytes) : Except Exc (List PyStr) :=
  match readText data with
  | some text => .ok (textLines text)
  | none => .error ⟨.valueError, py "UnicodeDecodeError"⟩

/-- `installer_name in line` -/
def mentions (installerName line : PyStr) : Bool := decide (installerName <:+: line)

/-- `expected`: the first word of the first line with the name in it. -/
def expectedDigest (installerName : PyStr) (lines : List PyStr) : Except Exc PyStr :=
  match lines.find? (mentions installerName) with
  | some line =>
      match words line with
      | digest :: _ => .ok digest
      | [] => .error ⟨.other (py "IndexError"), py "list index out of range"⟩
  | none => .ok []

def verify (installerName : PyStr) (data sums : Bytes) : Except Exc Unit := do
  let lines ← checksumLines sums
  let expected ← expectedDigest installerName lines
  let actual := sha256 data
  if expected = [] ∨ lowerAscii expected ≠ lowerAscii actual then
    throw ⟨.valueError, py "installer checksum verification failed"⟩

/-- `if info.checksum_url:` -/
def checkInstaller (info : UpdateInfo) (o : Outside) (data : Bytes) : Except Exc Unit :=
  match info.checksumUrl.filter fun url => !url.isEmpty with
  | some url => o.second url >>= verify info.installerName data
  | none => .ok ()

/-- The path of the installer that was started. -/
def downloadAndLaunch (info : UpdateInfo) (o : Outside) : Except Exc PyStr := do
  let directory ← o.mkdtemp
  let installer := o.child directory info.installerName
  let data ← o.first info.installerUrl
  checkInstaller info o data
  o.popen installer
  return installer

/-! ## What is started -/

/-- The digest of a line of a checksum file. -/
def digestField (line : PyStr) : PyStr := (words line).head?.getD []

/-- The file name of a line of a checksum file: what follows the digest, but the mark of binary mode. -/
def nameField (line : PyStr) : PyStr := removePrefix (py "*") (afterWord line)

/-- Some line gives the digest of the data to the name. -/
def Entry (lines : List PyStr) (name : PyStr) (data : Bytes) : Prop :=
  ∃ line ∈ lines, nameField line = name ∧ lowerAscii (digestField line) = sha256 data

section Release

variable {F : Type} [FloatNum F]

/-- The addresses of the assets with a name. -/
def assetUrls (release : Mapping F) (name : PyStr) : List PyStr :=
  match lookup (py "assets") release with
  | some (.arr assets) => assets.filterMap (assetUrl name)
  | _ => []

/-- The installer is in the checksum file of its release. -/
def Verified (release : Mapping F) (info : UpdateInfo) (o : Outside) : Prop :=
  ∃ url ∈ assetUrls release (py "SHA256SUMS.txt"), info.checksumUrl = some url ∧ ∃ data sums lines,
    o.first info.installerUrl = .ok data ∧ o.second url = .ok sums ∧
      checksumLines sums = .ok lines ∧ Entry lines info.installerName data

/-- What has to be so where everything answers: the release lists a checksum file, and if the first line
    that mentions the installer has its digest, a line for exactly the installer has it. -/
def Guarded (release : Mapping F) (info : UpdateInfo) (o : Outside) : Prop :=
  ∀ directory data, o.mkdtemp = .ok directory → o.first info.installerUrl = .ok data →
    o.popen (o.child directory info.installerName) = .ok () →
      ∃ url, (assetUrls release (py "SHA256SUMS.txt")).getLast? = some url ∧
        ∀ sums lines line, o.second url = .ok sums → checksumLines sums = .ok lines →
          lines.find? (mentions info.installerName) = some line →
            lowerAscii (digestField line) = sha256 data → Entry lines info.installerName data

theorem getLast?_filterMap_cons {α β : Type} (f : α → Option β) (x : α) (xs : List α) (u : Option β) :
    ((x :: xs).filterMap f).getLast?.or u = (xs.filterMap f).getLast?.or ((f x).or u) := by
  cases h : f x with
  | none => rw [List.filterMap_cons_none h, Option.none_or]
  | some y =>
      rw [List.filterMap_cons_some h, List.getLast?_cons]
      cases (xs.filterMap f).getLast? <;> rfl

/-- The loop keeps the last address of each name. -/
theorem foldl_assetStep (wanted : PyStr) (assets : List (Json F)) (urls : Option PyStr × Option PyStr) :
    assets.foldl (assetStep wanted) urls =
      ((assets.filterMap (assetUrl wanted)).getLast?.or urls.1,
        (assets.filterMap (assetUrl (py "SHA256SUMS.txt"))).getLast?.or urls.2) := by
  induction assets generalizing urls with
  | nil => rfl
  | cons asset assets ih =>
      rw [List.foldl_cons, ih, getLast?_filterMap_cons, getLast?_filterMap_cons]
      rfl

/-- What `check_for_update` returns has the last address of each name. -/
theorem checkForUpdate_ok {disabled : Bool} {system : PyStr} {release : Mapping F}
    {currentVersion : PyStr} {info : UpdateInfo}
    (h : checkForUpdate disabled system (.ok release) currentVersion = .ok (some info)) :
    (assetUrls release info.installerName).getLast? = some info.installerUrl ∧
      (assetUrls release (py "SHA256SUMS.txt")).getLast? = info.checksumUrl := by
  unfold checkForUpdate at h
  split at h
  · cases h
  split at h
  · cases h
  simp only [bind, Except.bind] at h
  split at h
  · cases h
  split at h
  · next assets hassets =>
      rw [foldl_assetStep] at h
      simp only [Option.or_none] at h
      split at h
      · next url hurl =>
          obtain rfl := Option.some.inj (Except.ok.inj h)
          simp only [assetUrls, hassets]
          exact ⟨hurl, trivial⟩
      · cases h
  · cases h

/-- An address of GitHub is not empty. -/
theorem assetUrls_ne_nil {release : Mapping F} {name url : PyStr} (h : url ∈ assetUrls release name) :
    url ≠ [] := by
  unfold assetUrls at h
  split at h
  · obtain ⟨asset, -, hurl⟩ := List.mem_filterMap.1 h
    unfold assetUrl at hurl
    split at hurl
    · split at hurl
      · next hcond =>
          obtain rfl := Option.some.inj hurl
          rintro hnil
          rw [hnil] at hcond
          exact absurd hcond.2 (by decide)
      · cases hurl
    · cases hurl
  · cases h

end Release

/-! ### The two checks -/

theorem lowerAscii_sha256 (data : Bytes) : lowerAscii (sha256 data) = sha256 data := by
  have hlower : ∀ c ∈ sha256 data, ¬ (65 ≤ c ∧ c ≤ 90) := by
    intro c hc
    have := sha256_hex hc
    omega
  rw [lowerAscii, List.map_congr_left fun c hc => if_neg (hlower c hc), List.map_id']

theorem sha256_ne_nil (data : Bytes) : sha256 data ≠ [] := by
  intro h
  have := sha256_length data
  rw [h] at this
  cases this

/-- The check passes if the first line that mentions the installer begins with its digest. -/
theorem verify_ok {installerName : PyStr} {data sums : Bytes} :
    verify installerName data sums = .ok () ↔ ∃ lines line, checksumLines sums = .ok lines ∧
      lines.find? (mentions installerName) = some line ∧
        lowerAscii (digestField line) = sha256 data := by
  constructor
  · intro h
    obtain ⟨lines, hlines, h⟩ := bind_ok.1 h
    obtain ⟨expected, hexpected, h⟩ := bind_ok.1 h
    simp only at h
    split at h
    · cases h
    next hsame =>
    rw [not_or, not_not, lowerAscii_sha256] at hsame
    unfold expectedDigest at hexpected
    split at hexpected
    · next line hline =>
        split at hexpected
        · next digest _ hwords =>
            obtain rfl := Except.ok.inj hexpected
            refine ⟨lines, line, hlines, hline, ?_⟩
            rw [digestField, hwords]
            exact hsame.2
        · cases hexpected
    · exact absurd (Except.ok.inj hexpected).symm hsame.1
  · rintro ⟨lines, line, hlines, hline, hdigest⟩
    cases hwords : words line with
    | nil =>
        rw [digestField, hwords] at hdigest
        exact absurd hdigest.symm (sha256_ne_nil data)
    | cons digest rest =>
        have hexpected : expectedDigest installerName lines = .ok digest := by
          simp only [expectedDigest, hline, hwords]
        rw [digestField, hwords, List.head?_cons, Option.getD_some] at hdigest
        have hne : digest ≠ [] := by
          rintro rfl
          exact sha256_ne_nil data hdigest.symm
        refine bind_ok.2 ⟨lines, hlines, bind_ok.2 ⟨digest, hexpected, ?_⟩⟩
        rw [if_neg]
        · rfl
        · rw [not_or, not_not, lowerAscii_sha256]
          exact ⟨hne, hdigest⟩

/-- The installer is started where everything answers and the check, if there is one, passes. -/
theorem downloadAndLaunch_ok {info : UpdateInfo} {o : Outside} {path : PyStr} :
    downloadAndLaunch info o = .ok path ↔ ∃ directory data, o.mkdtemp = .ok directory ∧
      o.first info.installerUrl = .ok data ∧
      (∀ url ∈ info.checksumUrl.filter fun url => !url.isEmpty,
        ∃ sums, o.second url = .ok sums ∧ verify info.installerName data sums = .ok ()) ∧
      o.popen (o.child directory info.installerName) = .ok () ∧
      o.child directory info.installerName = path := by
  constructor
  · intro h
    obtain ⟨directory, hdir, h⟩ := bind_ok.1 h
    obtain ⟨data, hdata, h⟩ := bind_ok.1 h
    obtain ⟨_, hcheck, h⟩ := bind_ok.1 h
    obtain ⟨_, hpopen, h⟩ := bind_ok.1 h
    refine ⟨directory, data, hdir, hdata, ?_, hpopen, Except.ok.inj h⟩
    intro url hurl
    rw [checkInstaller, Option.mem_def.1 hurl] at hcheck
    obtain ⟨sums, hsums, hverify⟩ := bind_ok.1 hcheck
    exact ⟨sums, hsums, hverify⟩
  · rintro ⟨directory, data, hdir, hdata, hcheck, hpopen, rfl⟩
    refine bind_ok.2 ⟨directory, hdir, bind_ok.2 ⟨data, hdata, bind_ok.2 ⟨(), ?_, bind_ok.2
      ⟨(), hpopen, rfl⟩⟩⟩⟩
    unfold checkInstaller
    cases hurl : info.checksumUrl.filter fun url => !url.isEmpty with
    | none => rfl
    | some url =>
        obtain ⟨sums, hsums, hverify⟩ := hcheck url hurl
        exact bind_ok.2 ⟨sums, hsums, hverify⟩

section Launch

variable {F : Type} [FloatNum F]

/-- **When only verified installers are started.** -/
theorem starts_verified_iff (disabled : Bool) (system : PyStr) (release : Mapping F)
    (currentVersion : PyStr) (info : UpdateInfo)
    (h : checkForUpdate disabled system (.ok release) currentVersion = .ok (some info))
    (o : Outside) :
    ((∃ path, downloadAndLaunch info o = .ok path) → Verified release info o) ↔
      Guarded release info o := by
  obtain ⟨-, hsums⟩ := checkForUpdate_ok h
  have hkept : info.checksumUrl.filter (fun url => !url.isEmpty) = info.checksumUrl := by
    cases hurl : info.checksumUrl with
    | none => rfl
    | some url =>
        have hne := assetUrls_ne_nil (List.mem_of_getLast? (hsums.trans hurl))
        simp [Option.filter, hne]
  constructor
  · intro hstart directory data hdir hdata hpopen
    cases hurl : info.checksumUrl with
    | none =>
        -- nothing is checked, so the installer is started, and there is no file to be listed in
        have hrun := downloadAndLaunch_ok.2 ⟨directory, data, hdir, hdata,
          (fun url hmem => by rw [hkept, hurl] at hmem; cases hmem), hpopen, rfl⟩
        obtain ⟨url, -, hnamed, -⟩ := hstart ⟨_, hrun⟩
        cases hurl.symm.trans hnamed
    | some url =>
        refine ⟨url, hsums.trans hurl, ?_⟩
        intro sums lines line hsecond hlines hline hdigest
        have hverify := verify_ok.2 ⟨lines, line, hlines, hline, hdigest⟩
        have hcheck : ∀ url' ∈ info.checksumUrl.filter fun url => !url.isEmpty,
            ∃ sums, o.second url' = .ok sums ∧ verify info.installerName data sums = .ok () := by
          intro url' hmem
          rw [hkept, hurl] at hmem
          obtain rfl := Option.some.inj hmem
          exact ⟨sums, hsecond, hverify⟩
        have hrun := downloadAndLaunch_ok.2 ⟨directory, data, hdir, hdata, hcheck, hpopen, rfl⟩
        obtain ⟨url', -, hnamed, data', sums', lines', hdata', hsecond', hlines', hentry⟩ :=
          hstart ⟨_, hrun⟩
        obtain rfl := Option.some.inj (hurl.symm.trans hnamed)
        obtain rfl := Except.ok.inj (hdata.symm.trans hdata')
        obtain rfl := Except.ok.inj (hsecond.symm.trans hsecond')
        obtain rfl := Except.ok.inj (hlines.symm.trans hlines')
        exact hentry
  · rintro hguard ⟨path, hrun⟩
    obtain ⟨directory, data, hdir, hdata, hcheck, hpopen, -⟩ := downloadAndLaunch_ok.1 hrun
    obtain ⟨url, hlast, hentry⟩ := hguard directory data hdir hdata hpopen
    have hurl : info.checksumUrl = some url := hsums.symm.trans hlast
    obtain ⟨sums, hsecond, hverify⟩ := hcheck url (hkept.trans hurl)
    obtain ⟨lines, line, hlines, hline, hdigest⟩ := verify_ok.1 hverify
    exact ⟨url, List.mem_of_getLast? hlast, hurl, data, sums, lines, hdata, hsecond, hlines,
      hentry sums lines line hsecond hlines hline hdigest⟩

end Launch

/-! ### Two releases -/

/-- The release 2.0.0 with these assets. -/
def release200 (assets : List String) : Mapping SampleFloat :=
  [(py "tag_name", .str (py "v2.0.0")),
    (py "assets", .arr (assets.map fun name => .obj [(py "name", .str (py name)),
      (py "browser_download_url", .str (py ("https://github.com/" ++ name)))]))]

/-- Version 1.1.0 updates to 2.0.0. -/
def info200 (checksumUrl : Option PyStr) : UpdateInfo where
  currentVersion := py "1.1.0"
  latestVersion := py "2.0.0"
  installerUrl := py "https://github.com/ELYRA-AI-Setup-2.0.0-x64.exe"
  installerName := py "ELYRA-AI-Setup-2.0.0-x64.exe"
  checksumUrl := checksumUrl

/-- A line of a checksum file with the digest of an empty installer. -/
def sumsLine (name : String) : String :=
  "e3b0c44298fc1c149afbf4c8996fb92427ae41e4649b934ca495991b7852b855 *" ++ name

/-- Everything answers: the installer is empty, and the checksum file has the line. -/
def outside200 (line : String) : Outside where
  mkdtemp := .ok (py "C:\\Temp\\elyra-ai-update-x")
  child directory name := directory ++ py "\\" ++ name
  first _ := .ok []
  second _ := .ok ((encodeUtf8 (py (line ++ "\n"))).getD [])
  popen _ := .ok ()

/-- The two assets of a release, and the line the release build writes. -/
theorem starts_verified_200 :
    ((∃ path, downloadAndLaunch (info200 (some (py "https://github.com/SHA256SUMS.txt")))
        (outside200 (sumsLine "ELYRA-AI-Setup-2.0.0-x64.exe")) = .ok path) →
      Verified (release200 ["ELYRA-AI-Setup-2.0.0-x64.exe", "SHA256SUMS.txt"])
        (info200 (some (py "https://github.com/SHA256SUMS.txt")))
        (outside200 (sumsLine "ELYRA-AI-Setup-2.0.0-x64.exe"))) ↔
      Guarded (release200 ["ELYRA-AI-Setup-2.0.0-x64.exe", "SHA256SUMS.txt"])
        (info200 (some (py "https://github.com/SHA256SUMS.txt")))
        (outside200 (sumsLine "ELYRA-AI-Setup-2.0.0-x64.exe")) :=
  starts_verified_iff false (py "Windows") _ (py "1.1.0") _ (by decide +kernel) _

/-- An installer is started without a checksum file, and with the digest of another file. -/
theorem unverified_installers_started :
    (checkForUpdate false (py "Windows") (.ok (release200 ["ELYRA-AI-Setup-2.0.0-x64.exe"]))
        (py "1.1.0") = .ok (some (info200 none)) ∧
      (downloadAndLaunch (info200 none) (outside200 "")).isOk = true ∧
      ¬ Verified (release200 ["ELYRA-AI-Setup-2.0.0-x64.exe"]) (info200 none) (outside200 "")) ∧
    (checkForUpdate false (py "Windows")
        (.ok (release200 ["ELYRA-AI-Setup-2.0.0-x64.exe", "SHA256SUMS.txt"])) (py "1.1.0") =
          .ok (some (info200 (some (py "https://github.com/SHA256SUMS.txt")))) ∧
      (downloadAndLaunch (info200 (some (py "https://github.com/SHA256SUMS.txt")))
        (outside200 (sumsLine "old-ELYRA-AI-Setup-2.0.0-x64.exe"))).isOk = true ∧
      ¬ Verified (release200 ["ELYRA-AI-Setup-2.0.0-x64.exe", "SHA256SUMS.txt"])
        (info200 (some (py "https://github.com/SHA256SUMS.txt")))
        (outside200 (sumsLine "old-ELYRA-AI-Setup-2.0.0-x64.exe"))) := by
  refine ⟨⟨by decide +kernel, by decide +kernel, ?_⟩, by decide +kernel, by decide +kernel, ?_⟩
  · rintro ⟨url, -, hnamed, -⟩
    cases hnamed
  · rintro ⟨url, -, -, data, sums, lines, -, hsums, hlines, line, hline, hname, -⟩
    obtain rfl := Except.ok.inj hsums
    have hone : checksumLines ((encodeUtf8 (py (sumsLine "old-ELYRA-AI-Setup-2.0.0-x64.exe" ++
        "\n"))).getD []) = .ok [py (sumsLine "old-ELYRA-AI-Setup-2.0.0-x64.exe")] := by
      decide +kernel
    obtain rfl := Except.ok.inj (hlines.symm.trans hone)
    obtain rfl := List.mem_singleton.1 hline
    exact absurd hname (by decide +kernel)

end Elyra.Update
