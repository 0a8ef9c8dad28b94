/-
The key usage of issued certificates is the profile's.

A named profile fixes the key usage and the extended key usage of the certificates issued under it. Between the form, or an
imported file, and the certificate stand the checks, the JSON columns, `enforce`, and the builder, which has defaults of its
own: a missing `digital_signature` or `key_encipherment` is set, and an empty list of extended key usages becomes server and
client authentication.

1. `run_stored`: in every run the rows of named profiles are well formed.
2. `issued_usage_exact_iff`: a certificate issued under a named profile, on any path, carries exactly the usage the profile
   specifies if and only if the profile leaves no room for these defaults.
3. `unticked_usage_granted`, `partial_usage_granted`: a profile from the form with no extended key usage, and an imported
   one with a single bit, grant usages they do not list.
-/
import Mathlib.Tactic
import Chancery.Core.Run
import Chancery.Routes.Profiles

namespace Chancery.Profiles

open Chancery.Core
open Chancery.Pki (Env)

variable {lib : Pki.Lib} {plib : ProfileLib}

/-! ## Stored profiles in every run -/

theorem stored_withProfiles {s : Site} {r : Except PyError ProfileTable} (h : AllStored plib s.profiles)
    (hr : ∀ t, r = .ok t → AllStored plib t) : AllStored plib (s.withProfiles r).1.profiles := by
  cases r with
  | error e => exact h
  | ok t => exact hr t rfl

theorem stored_withProfile {s : Site} {profileId : ℤ} {f : Profile → Except PyError ProfileTable}
    (h : AllStored plib s.profiles) (hf : ∀ row t, f row = .ok t → AllStored plib t) :
    AllStored plib (withProfile s profileId f).1.profiles := by
  unfold withProfile
  split
  · exact h
  · exact stored_withProfiles h fun t => hf _ t

/-- the requests on settings and CSRs change no profile -/
theorem settings_profiles (s : Site) :
    (∀ caId form, (setProfiles plib caId form s).1.profiles = s.profiles) ∧
    (∀ env caId form, (setAcme lib plib env caId form s).1.profiles = s.profiles) ∧
    (∀ env request form, (createCa lib plib env request form s).1.profiles = s.profiles) ∧
    ∀ env csr profile, (importCsr lib plib env csr profile s).1.profiles = s.profiles := by
  refine ⟨fun caId form => ?_, fun env caId form => ?_, fun env request form => ?_, fun env csr profile => ?_⟩
  · unfold setProfiles
    split
    · rfl
    · split <;> rfl
  · unfold setAcme
    split
    · rfl
    · split <;> rfl
  · unfold createCa
    split
    · rfl
    · simp only []
      split <;> rfl
  · unfold importCsr
    split
    · rfl
    · split_ifs
      · rfl
      · rfl
      · split <;> rfl

/-- **Step lemma.** Every operation keeps the named profiles well formed. -/
theorem step_stored {s : Site} (h : AllStored plib s.profiles) (o : Op plib) :
    AllStored plib (step lib plib s o).profiles := by
  unfold step handle
  cases o with
  | seed => exact allStored_ensureBuiltins h
  | profileNew form => exact stored_withProfiles h fun t ht => allStored_create h (written_formToFields form false) ht
  | profileEdit profileId form =>
    exact stored_withProfile h fun row t ht => allStored_writeUpdate h (written_formToFields form row.isCustom) ht
  | profileToggle profileId =>
    refine stored_withProfile h fun row t ht => ?_
    rw [← Except.ok.inj ht]
    exact allStored_toggle h row.id
  | profileDelete profileId => exact stored_withProfile h fun row t ht => allStored_delete h ht
  | importProfiles replace items =>
    refine stored_withProfiles h fun t ht => allStored_importProfiles h (fun v hv => ?_) ht
    obtain ⟨item, -, rfl⟩ := List.mem_map.1 hv
    exact item.2
  | setProfiles caId form =>
    show AllStored plib (setProfiles plib caId form s).1.profiles
    rw [(@settings_profiles lib plib s).1]
    exact h
  | setAcme env caId form =>
    show AllStored plib (setAcme lib plib env caId form s).1.profiles
    rw [(settings_profiles s).2.1]
    exact h
  | createCa env request form =>
    show AllStored plib (createCa lib plib env request.1 form s).1.profiles
    rw [(settings_profiles s).2.2.1]
    exact h
  | importCsr env csr profile =>
    show AllStored plib (importCsr lib plib env csr profile s).1.profiles
    rw [(settings_profiles s).2.2.2]
    exact h
  | issue required env path =>
    show AllStored plib (issue lib plib required env s path).1.profiles
    rcases (@issue_frame lib plib env required s path).1 with heq | heq
    · rw [heq]
      exact h
    · rw [heq]
      exact allStored_ensureBuiltins h
  | other env request => exact h

/-- **Run lemma.** In every run from a fresh table of profiles the named ones are well formed. -/
theorem run_stored (db : Pki.Db) (ops : List (Op plib)) :
    AllStored plib (run (step lib plib) (Site.start db) ops).profiles := by
  have hstart : AllStored plib (ensureBuiltins Table.empty) :=
    allStored_ensureBuiltins fun _ hp => absurd hp List.not_mem_nil
  exact @run_invariant _ _ (step lib plib) (fun s => AllStored plib s.profiles) (fun _ o h => step_stored h o)
    (Site.start db) hstart ops

/-! ## Issued certificates -/

/-- the profile that an issuance went through is the row its certificate refers to -/
theorem picks_profile {s s' : Site} {path : Path} {p? : Option Profile} {p : Profile}
    (hpick : Picks plib s s' (some p.id) p? path) (hp : p ∈ s'.profiles) : p? = some p := by
  have hsame : ∀ q ∈ s'.profiles, some p.id = some q.id → q = p := fun q hq hid =>
    Table.eq_of_key hq hp (Option.some.inj hid).symm
  cases path with
  | create caId profile form =>
    obtain ⟨q, hq, rfl, hid, -⟩ := hpick
    rw [hsame q hq hid]
  | sign csrId caId profile form =>
    obtain ⟨q, hq, rfl, hid, -⟩ := hpick
    rw [hsame q hq hid]
  | acme caId csr days form =>
    obtain ⟨q, hq, rfl, hid, -⟩ := hpick
    rw [hsame q hq hid]
  | renew certId days form keyType keySize =>
    rw [hpick.2]
    exact Table.get?_key hp

/-- **Issued usage.** In every run, a certificate issued under a named profile carries exactly the usage the profile
specifies if and only if the profile leaves no room for the defaults of the builder. -/
theorem issued_usage_exact_iff (db : Pki.Db) (ops : List (Op plib)) {required : Bool} {env : Env} {path : Path}
    {s s' : Site} (hs : s = run (step lib plib) (Site.start db) ops) (hs' : s' = (issue lib plib required env s path).1)
    (hnew : s'.hasLeaf s.nextLeaf = true) {p : Profile} (hp : p ∈ s'.profiles)
    (hid : (s'.columns s.nextLeaf).profileId = some p.id) (hc : p.isCustom = false) :
    Exact plib p (s'.columns s.nextLeaf).usage ↔ Complete plib p := by
  subst hs'
  obtain ⟨profileId, p?, r, u, cert, hpick, henforce, hcert, hcolumns⟩ := issue_picks hnew
  rw [hcolumns] at hid ⊢
  change profileId = some p.id at hid
  rw [hid] at hpick
  rw [picks_profile hpick hp] at henforce
  have hstored : AllStored plib (step lib plib s (.issue required env path)).profiles := by
    rw [hs]
    exact step_stored (run_stored db ops) _
  exact exact_iff_complete (hstored p hp) hc henforce hcert

/-! ## Profiles that leave room -/

/-- decimal digits only -/
def sampleParseInt (t : Text) : Option ℤ := if Json.isDigits t then some (Nat.ofDigitChars 10 t 0) else none

/-- ASCII, and no float and no URL -/
def sampleProfileLib : ProfileLib where
  uni := .ascii
  floats := fun _ => (none, "NaN")
  isDigit := Char.isDigit
  isDigit_ascii := fun _ _ => rfl
  isDecimal := Char.isDigit
  isDecimal_ascii := fun _ _ => rfl
  parseInt := sampleParseInt
  parseInt_digits := fun t n _ h => by
    unfold sampleParseInt at h
    split at h
    · exact (Option.some.inj h).symm
    · cases h
  format := fun _ => []
  urlsplit := fun _ => .ok ([], [])

def sampleLeafForm : Pki.LeafForm := ⟨[("CN", "a.example".toList)], [], 30, Verdicts.pass, 999⟩

/-- a certificate of the sub-CA, with no usage asked for -/
def sampleIssue (profile : String) : Path := .create 2 (some profile.toList) ⟨sampleLeafForm, "RSA", 2048, fun _ => false⟩

/-- the profile form with these fields -/
def sampleProfileForm (fields : List (String × String)) : Form := fun name => fields.lookup name

/-- the profile form with a key usage and no extended key usage -/
def unticked : Op sampleProfileLib :=
  .profileNew (sampleProfileForm [("name", "Signing"), ("ku_digital_signature", "on"), ("enabled", "on")])

/-- a profile file with a single key usage bit -/
def partialImport : Op sampleProfileLib :=
  .importProfiles false [⟨.obj [("key", .str "data"), ("name", .str "Data"),
    ("key_usage", .obj [("data_encipherment", .bool true)])], by
      refine ⟨by decide, trivial, trivial, ⟨?_, trivial, trivial⟩, trivial⟩
      decide⟩]

/-- the site after one operation -/
def afterOp (o : Op sampleProfileLib) : Site := run (step Pki.sampleLib sampleProfileLib) (Site.start Pki.sampleForest) [o]

/-- the site after that operation and an issuance -/
def issuedAfter (o : Op sampleProfileLib) (profile : String) : Site :=
  (issue Pki.sampleLib sampleProfileLib false (Env.at 0) (afterOp o) (sampleIssue profile)).1

/-- the row that the form made -/
def untickedRow : Profile :=
  { Profile.new "signing" false 6 with
    name := "Signing"
    keyUsageJson := some (Json.dumps .default (ku ["digital_signature"]))
    extendedKeyUsageJson := some (Json.dumps .default (.arr []))
    includeOcspAia := false }

/-- the row that the file made -/
def partialRow : Profile :=
  { Profile.new "data" false 6 with
    name := "Data"
    keyUsageJson := some (Json.dumps .default (.obj [("data_encipherment", .bool true)])) }

theorem unticked_issued :
    untickedRow ∈ (issuedAfter unticked "signing").profiles ∧
      (issuedAfter unticked "signing").hasLeaf (afterOp unticked).nextLeaf = true ∧
      ((issuedAfter unticked "signing").columns (afterOp unticked).nextLeaf).profileId = some untickedRow.id ∧
      ((issuedAfter unticked "signing").columns (afterOp unticked).nextLeaf).usage.extendedKeyUsage =
        some [.serverAuth, .clientAuth] := by
  decide +kernel

theorem partial_issued :
    partialRow ∈ (issuedAfter partialImport "data").profiles ∧
      (issuedAfter partialImport "data").hasLeaf (afterOp partialImport).nextLeaf = true ∧
      ((issuedAfter partialImport "data").columns (afterOp partialImport).nextLeaf).profileId = some partialRow.id ∧
      ((issuedAfter partialImport "data").columns (afterOp partialImport).nextLeaf).usage.keyUsage =
        ⟨true, true, false, true, false⟩ := by
  decide +kernel

/-- the row of the built-in profile for clients -/
def clientRow : Profile :=
  { Profile.new "client_auth" true 2 with
    name := "Client Auth"
    description := "TLS client / mutual-TLS identity certificate."
    keyUsageJson := some (Json.dumps .default (ku ["digital_signature"]))
    extendedKeyUsageJson := some (Json.dumps .default (names ["clientAuth"])) }

theorem client_issued :
    clientRow ∈ (issuedAfter unticked "client_auth").profiles ∧
      (issuedAfter unticked "client_auth").hasLeaf (afterOp unticked).nextLeaf = true ∧
      ((issuedAfter unticked "client_auth").columns (afterOp unticked).nextLeaf).profileId = some clientRow.id := by
  decide +kernel

theorem client_complete : Complete sampleProfileLib clientRow := by
  have husage : clientRow.keyUsage sampleProfileLib = ku ["digital_signature"] := load_dumps (written_flags _)
  have hextended : clientRow.extendedKeyUsage sampleProfileLib = names ["clientAuth"] := load_dumps (written_names _)
  constructor
  · intro items hitems
    cases husage.symm.trans hitems
    decide
  · intro items hitems
    cases hextended.symm.trans hitems
    decide

/-- the theorem applies to a certificate for a client: it has the usage of the profile -/
theorem issued_usage_exact_iff_sample :
    Exact sampleProfileLib clientRow ((issuedAfter unticked "client_auth").columns (afterOp unticked).nextLeaf).usage :=
  (@issued_usage_exact_iff Pki.sampleLib sampleProfileLib Pki.sampleForest [unticked] false (Env.at 0)
    (sampleIssue "client_auth") (afterOp unticked) (issuedAfter unticked "client_auth") rfl rfl client_issued.2.1 clientRow
    client_issued.1 client_issued.2.2 (by decide +kernel)).2 client_complete

/-- **No box ticked.** A profile from the form that lists no extended key usage: its certificate has server and client
authentication. -/
theorem unticked_usage_granted :
    untickedRow ∈ (issuedAfter unticked "signing").profiles ∧
      (issuedAfter unticked "signing").hasLeaf (afterOp unticked).nextLeaf = true ∧
      ((issuedAfter unticked "signing").columns (afterOp unticked).nextLeaf).profileId = some untickedRow.id ∧
      untickedRow.isCustom = false ∧
      ¬ Exact sampleProfileLib untickedRow
        ((issuedAfter unticked "signing").columns (afterOp unticked).nextLeaf).usage := by
  obtain ⟨hmem, hleaf, hid, hgranted⟩ := unticked_issued
  refine ⟨hmem, hleaf, hid, by decide, fun h => ?_⟩
  have hread : untickedRow.extendedKeyUsage sampleProfileLib = .arr [] := load_dumps (v := .arr []) trivial
  have hnone := (h.extendedKeyUsage [] hread).1 rfl
  rw [hgranted] at hnone
  cases hnone

/-- **A single bit.** An imported profile with `data_encipherment` alone: its certificate also signs and enciphers keys. -/
theorem partial_usage_granted :
    partialRow ∈ (issuedAfter partialImport "data").profiles ∧
      (issuedAfter partialImport "data").hasLeaf (afterOp partialImport).nextLeaf = true ∧
      ((issuedAfter partialImport "data").columns (afterOp partialImport).nextLeaf).profileId = some partialRow.id ∧
      partialRow.isCustom = false ∧
      ¬ Exact sampleProfileLib partialRow
        ((issuedAfter partialImport "data").columns (afterOp partialImport).nextLeaf).usage := by
  obtain ⟨hmem, hleaf, hid, hgranted⟩ := partial_issued
  refine ⟨hmem, hleaf, hid, by decide, fun h => ?_⟩
  have hread : partialRow.keyUsage sampleProfileLib = .obj [("data_encipherment", .bool true)] :=
    load_dumps (v := .obj [("data_encipherment", .bool true)]) ⟨by decide, trivial, trivial⟩
  have hexact := h.keyUsage _ hread
  rw [hgranted] at hexact
  exact absurd hexact (by decide +kernel)

end Chancery.Profiles
