/-
A CA's allow-list of profiles, over every order of changes and issuances.

`allowed_for_ca` says that a CA with a list issues only under the listed profiles. `resolve` asks it when a certificate is
created or a CSR is signed. A renewal takes the profile of the old certificate, an ACME order the ACME profile of the CA,
and neither asks: a renewal only looks whether the profile is enabled, and `set_acme` compares with the list of its own
moment, and does not compare `custom` at all.

1. `allow_list_enforced`: if at every renewal the profile of the old certificate, and at every ACME issuance the profile the
   settings give, is in the list of that moment, then every certificate ever issued by a CA with a list is under a listed
   profile.
2. `renewal_outside_list`, `acme_outside_list`: without it, a renewal keeps a profile the list has dropped, and ACME
   without a configured profile issues under `custom`.
-/
import Mathlib.Tactic
import Chancery.Scenarios.IssuedUsage

namespace Chancery.Profiles

open Chancery.Core
open Chancery.Pki (Env)

variable {lib : Pki.Lib} {plib : ProfileLib}

/-! ## The issued certificates -/

/-- the CA an issuance goes to -/
def Path.caId (s : Site) : Path → Option ℤ
  | .create caId _ _ => some caId
  | .sign _ caId _ _ => some caId
  | .acme caId _ _ _ => some caId
  | .renew certId _ _ _ _ => (s.db.leaves.get? certId).map (·.caId)

/-- a certificate, with its profile and the list of its CA at the moment of its issuance -/
structure Issuance where
  profileId : Option ℤ
  allowed : Option (List ℤ)
deriving DecidableEq

/-- the site, and the certificates issued so far -/
structure Ledger where
  site : Site
  issued : List Issuance

/-- the list of the CA an issuance goes to -/
def listOf (plib : ProfileLib) (s : Site) (path : Path) : Option (List ℤ) :=
  (path.caId s).bind fun caId => allowedProfileIds plib (s.settings caId)

/-- the entry of an operation: the certificate it has issued -/
def entryOf (lib : Pki.Lib) (plib : ProfileLib) (s : Site) : Op plib → List Issuance
  | .issue required env path =>
    let s' := (issue lib plib required env s path).1
    if s'.hasLeaf s.nextLeaf then [⟨(s'.columns s.nextLeaf).profileId, listOf plib s path⟩] else []
  | _ => []

def Ledger.step (lib : Pki.Lib) (plib : ProfileLib) (l : Ledger) (o : Op plib) : Ledger :=
  ⟨Profiles.step lib plib l.site o, l.issued ++ entryOf lib plib l.site o⟩

/-- is the profile in the list, for a CA that has one -/
def Listed (allowed : Option (List ℤ)) (profileId : Option ℤ) : Prop :=
  ∀ ids, allowed = some ids → ids ≠ [] → ∃ i, profileId = some i ∧ i ∈ ids

/-- every certificate was issued under a profile in the list of its moment -/
def Ledger.Enforced (l : Ledger) : Prop := ∀ e ∈ l.issued, Listed e.allowed e.profileId

/-- the paths without a check of their own meet a listed profile -/
def Respects (plib : ProfileLib) (l : Ledger) : Op plib → Prop
  | .issue _ _ (.acme caId csr days form) =>
    ∀ p, acmeProfile plib l.site caId = .ok p → Listed (listOf plib l.site (.acme caId csr days form)) (some p.id)
  | .issue _ _ (.renew certId days form keyType keySize) =>
    Listed (listOf plib l.site (.renew certId days form keyType keySize)) (l.site.columns certId).profileId
  | _ => True

/-! ## One step, and a run -/

/-- an allowed profile is a listed one -/
theorem listed_of_allowed {allowed : Option (List ℤ)} {p : Profile} (h : allowedForCa allowed p = true) :
    Listed allowed (some p.id) := by
  intro ids hids _
  subst hids
  have hmem : ids.contains p.id = true := h
  exact ⟨p.id, rfl, List.contains_iff_mem.1 hmem⟩

/-- **One issuance.** On the paths that ask, `resolve` makes it; on the others the condition does. -/
theorem listed_of_issue {l : Ledger} {required : Bool} {env : Env} {path : Path}
    (hr : Respects plib l (.issue required env path))
    (hnew : (issue lib plib required env l.site path).1.hasLeaf l.site.nextLeaf = true) :
    Listed (listOf plib l.site path) ((issue lib plib required env l.site path).1.columns l.site.nextLeaf).profileId := by
  obtain ⟨profileId, p?, r, u, cert, hpick, -, -, hcolumns⟩ := issue_picks hnew
  rw [hcolumns]
  show Listed (listOf plib l.site path) profileId
  cases path with
  | create caId profile form =>
    obtain ⟨q, -, -, rfl, hallowed⟩ := hpick
    exact listed_of_allowed hallowed
  | sign csrId caId profile form =>
    obtain ⟨q, -, -, rfl, hallowed⟩ := hpick
    exact listed_of_allowed hallowed
  | acme caId csr days form =>
    obtain ⟨q, -, -, rfl, hacme⟩ := hpick
    exact hr q hacme
  | renew certId days form keyType keySize =>
    rw [hpick.1]
    exact hr

/-- **Step lemma.** -/
theorem enforced_step (l : Ledger) (o : Op plib) (hr : Respects plib l o) (h : l.Enforced) :
    (Ledger.step lib plib l o).Enforced := by
  intro e he
  rcases List.mem_append.1 he with he | he
  · exact h e he
  · cases o with
    | issue required env path =>
      unfold entryOf at he
      simp only [] at he
      split_ifs at he with hnew
      · rw [List.mem_singleton.1 he]
        exact listed_of_issue hr hnew
      · cases he
    | _ => cases he

/-- **The allow-list.** In a run whose renewals and ACME issuances meet a listed profile, every certificate is issued under
a profile in the list of its moment. -/
theorem allow_list_enforced (db : Pki.Db) (ops : List (Op plib))
    (h : Meets (Ledger.step lib plib) (Respects plib) ⟨Site.start db, []⟩ ops) :
    (run (Ledger.step lib plib) ⟨Site.start db, []⟩ ops).Enforced :=
  run_invariant_of_meets enforced_step (fun _ he => absurd he List.not_mem_nil) h

/-! ## Where the list is not asked -/

/-- the renewal of certificate 2, under a new serial number -/
def sampleRenewal : Path :=
  .renew 2 none ⟨{ sampleLeafForm with serialNumber := 1000 }, false, false, false, none⟩ "RSA" 2048

/-- a certificate under `web_server`; then the sub-CA is restricted to `client_auth`, and the certificate is renewed -/
def droppedProfile : List (Op sampleProfileLib) :=
  [.issue false (Env.at 0) (sampleIssue "web_server"), .setProfiles 2 ⟨true, ["client_auth".toList]⟩,
    .issue false (Env.at 0) sampleRenewal]

/-- a certificate whose profile stays in the list -/
def keptProfile : List (Op sampleProfileLib) :=
  [.setProfiles 2 ⟨true, ["web_server".toList]⟩, .issue false (Env.at 0) (sampleIssue "web_server"),
    .issue false (Env.at 0) sampleRenewal]

/-- a CSR for the same name -/
def sampleCsr : Csr := ⟨[⟨"commonName", "a.example".toList⟩], none, true⟩

/-- a sub-CA restricted to `web_server` serves ACME, with no profile configured -/
def missingAcmeProfile : List (Op sampleProfileLib) :=
  [.setProfiles 2 ⟨true, ["web_server".toList]⟩, .setAcme (Env.at 0) 2 ⟨true, none⟩,
    .issue false (Env.at 0) (.acme 2 sampleCsr 90 ⟨sampleLeafForm, "RSA", 2048, fun _ => false⟩)]

def sampleLedger (ops : List (Op sampleProfileLib)) : Ledger :=
  run (Ledger.step Pki.sampleLib sampleProfileLib) ⟨Site.start Pki.sampleForest, []⟩ ops

theorem kept_issued :
    listOf sampleProfileLib (sampleLedger (keptProfile.take 2)).site sampleRenewal = some [1] ∧
      ((sampleLedger (keptProfile.take 2)).site.columns 2).profileId = some 1 := by
  decide +kernel

theorem allow_list_enforced_sample : (sampleLedger keptProfile).Enforced := by
  have hrenewal : Respects sampleProfileLib (sampleLedger (keptProfile.take 2))
    (.issue false (Env.at 0) sampleRenewal) := by
    show Listed (listOf sampleProfileLib (sampleLedger (keptProfile.take 2)).site sampleRenewal)
      ((sampleLedger (keptProfile.take 2)).site.columns 2).profileId
    rw [kept_issued.1, kept_issued.2]
    intro ids hids _
    exact ⟨1, rfl, Option.some.inj hids ▸ List.mem_singleton_self 1⟩
  exact allow_list_enforced Pki.sampleForest keptProfile ⟨trivial, trivial, hrenewal, trivial⟩

/-- **A renewal outside the list.** The profile of the old certificate is not in the list any more. -/
theorem renewal_outside_list : ¬ (sampleLedger droppedProfile).Enforced := by
  have hissued : (⟨some 1, some [2]⟩ : Issuance) ∈ (sampleLedger droppedProfile).issued := by decide +kernel
  intro h
  obtain ⟨i, hi, hmem⟩ := h _ hissued [2] rfl (by decide)
  rw [← Option.some.inj hi] at hmem
  exact absurd hmem (by decide)

/-- **ACME outside the list.** Without a configured profile the orders go through `custom`, listed or not. -/
theorem acme_outside_list : ¬ (sampleLedger missingAcmeProfile).Enforced := by
  have hissued : (⟨some 5, some [1]⟩ : Issuance) ∈ (sampleLedger missingAcmeProfile).issued := by decide +kernel
  intro h
  obtain ⟨i, hi, hmem⟩ := h _ hissued [1] rfl (by decide)
  rw [← Option.some.inj hi] at hmem
  exact absurd hmem (by decide)

end Chancery.Profiles
