/-
Does the order of an imported bundle matter, and does a bundle lose certificates.

The certificates of a bundle are kept by serial number and subject, so of two different ones that share both only the
last is looked at: an intermediate that two roots have signed under one serial number is such a pair.

(1) `chosen_iff`: the chains that some order of a bundle gives are those of one certificate for each serial number and
subject (`Chosen`).
(2) `order_chain_sound_iff`: a bundle gives the same outcome in every order and with any repetition, and the whole bundle
as a chain, exactly when no two different certificates share both, or none of those choices forms a chain.
(3) `cross_signed_twice_lost`: with such a pair, one order is refused and another one loses a certificate.
-/
import Mathlib.Tactic
import Chancery.Services.ChainOrder

namespace Chancery.Pki.ChainOrder

open Chancery.Core

/-! ## Outcomes -/

section Outcome

variable {Cert : Type} (lib : CertLib Cert)

/-- the certificates of two bundles are the same, in some order, each at least once -/
def SameCerts (certs certs' : List Cert) : Prop := ∀ c, c ∈ certs' ↔ c ∈ certs

/-- the first certificate has issued none of the others -/
def FirstIsLeaf (ordered : List Cert) : Prop :=
  ∀ first ∈ ordered.head?, ∀ c ∈ ordered.tail, directlyIssued lib c first = false

/-- no two different certificates share a serial number and a subject -/
def NoClash (certs : List Cert) : Prop := ∀ c ∈ certs, ∀ d ∈ certs, key lib c = key lib d → c = d

/-- one certificate of the bundle for each serial number and subject, forming a chain -/
structure Chosen (certs ordered : List Cert) : Prop where
  chains : Chains lib ordered
  sub : ordered ⊆ certs
  spans : ∀ c ∈ certs, ∃ d ∈ ordered, key lib d = key lib c

/-- the last certificate is named like its own issuer, in another encoding, and was issued by the first -/
def ReEncodedTop (ordered : List Cert) : Prop :=
  ∃ first ∈ ordered.head?, ∃ top ∈ ordered.getLast?,
    selfNamed lib top = true ∧ lib.issuer top ≠ lib.subject top ∧ directlyIssued lib top first = true

variable [DecidableEq Cert]

/-- the ordered chain, or none for an error -/
def outcome (certs : List Cert) : Option (List Cert) := (orderChain lib certs.length certs).bind Except.toOption

/-- what ordering a bundle is for -/
structure OrderSound (certs : List Cert) : Prop where
  terminates : ∃ result, ∀ fuel, certs.length ≤ fuel → orderChain lib fuel certs = some result
  /-- every order and repetition has the same outcome -/
  stable : ∀ certs', SameCerts certs certs' → outcome lib certs' = outcome lib certs
  nodup : ∀ ordered ∈ outcome lib certs, ordered.Nodup
  complete : ∀ ordered ∈ outcome lib certs, ∀ c, c ∈ ordered ↔ c ∈ certs
  links : ∀ ordered ∈ outcome lib certs, ordered.IsChain fun c parent => directlyIssued lib c parent = true
  leaf : ∀ ordered ∈ outcome lib certs, FirstIsLeaf lib ordered

end Outcome

variable {Cert : Type} {lib : CertLib Cert} {certs certs' ordered : List Cert}

theorem SameCerts.symm (h : SameCerts certs certs') : SameCerts certs' certs := fun c => (h c).symm

/-! ## (1) Which chains come out -/

theorem Chosen.nodup_keys (h : Chosen lib certs ordered) : (ordered.map (key lib)).Nodup := by
  have hsubjects := h.chains.subjects
  refine List.Nodup.of_map Prod.snd ?_
  rwa [List.map_map]

theorem Chosen.same (h : Chosen lib certs ordered) (hsame : SameCerts certs certs') : Chosen lib certs' ordered :=
  ⟨h.chains, fun c hc => (hsame c).2 (h.sub hc), fun c hc => h.spans c ((hsame c).1 hc)⟩

/-- a choice leaves nothing out exactly when there was no choice -/
theorem Chosen.noClash_iff (h : Chosen lib certs ordered) : NoClash lib certs ↔ ∀ c, c ∈ ordered ↔ c ∈ certs := by
  constructor
  · intro hclash c
    refine ⟨fun hc => h.sub hc, fun hc => ?_⟩
    obtain ⟨d, hd, hkey⟩ := h.spans c hc
    rwa [hclash c hc d (h.sub hd) hkey.symm]
  · intro hall c hc d hd hkey
    exact List.inj_on_of_nodup_map h.nodup_keys ((hall c).2 hc) ((hall d).2 hd) hkey

/-- only a last certificate with two encodings of its name can have been issued by the first -/
theorem Chains.firstIsLeaf_iff (h : Chains lib ordered) : FirstIsLeaf lib ordered ↔ ¬ ReEncodedTop lib ordered := by
  obtain ⟨first, rest, rfl⟩ := List.exists_cons_of_ne_nil h.ne_nil
  have hnodup := List.nodup_cons.1 h.subjects
  constructor
  · rintro hleaf ⟨first', hfirst, top, htop, -, hname, hissued⟩
    obtain rfl : first = first' := Option.some.inj hfirst
    have hissuer := issuer_of_directlyIssued hissued
    rcases List.mem_cons.1 (List.mem_of_getLast? htop) with rfl | hmem
    · exact hname hissuer
    · rw [hleaf first rfl top hmem] at hissued
      cases hissued
  · intro hnot first' hfirst c hc
    obtain rfl : first = first' := Option.some.inj hfirst
    by_contra hissued
    rw [Bool.not_eq_false] at hissued
    have hissuer := issuer_of_directlyIssued hissued
    -- the issuer's name is the first one's, so no certificate of the rest has it
    have hother : ∀ d ∈ rest, lib.issuer c ≠ lib.subject d := fun d hd heq =>
      hnodup.1 (hissuer.symm.trans heq ▸ List.mem_map_of_mem hd)
    rcases exists_rel_of_mem h.links (List.mem_cons_of_mem first hc) with hlast | ⟨d, hd, hlink⟩
    · rcases h.top c hlast with hself | hfree
      · exact hnot ⟨first, rfl, c, hlast, hself, hother c hc, hissued⟩
      · exact hfree (by simp [hissuer])
    · exact hother d hd hlink.name

variable [DecidableEq Cert]

theorem outcome_eq_some : outcome lib certs = some ordered ↔ Chains lib ordered ∧ ordered.Perm (unique lib certs) := by
  rw [← orderChain_eq_ok (length_unique_le certs)]
  unfold outcome
  cases orderChain lib certs.length certs with
  | none => simp
  | some result => cases result <;> simp [Except.toOption]

theorem chosen_of_outcome (h : outcome lib certs = some ordered) : Chosen lib certs ordered := by
  obtain ⟨hchains, hperm⟩ := outcome_eq_some.1 h
  refine ⟨hchains, fun c hc => mem_of_mem_unique (hperm.mem_iff.1 hc), fun c hc => ?_⟩
  obtain ⟨d, hd, hkey⟩ : ∃ d ∈ unique lib _, key lib d = key lib c := exists_mem_unique hc
  exact ⟨d, hperm.mem_iff.2 hd, hkey⟩

/-- a choice comes out when it stands at the end of the bundle -/
theorem Chosen.outcome_append (h : Chosen lib certs ordered) : outcome lib (certs ++ ordered) = some ordered := by
  refine outcome_eq_some.2 ⟨h.chains, ?_⟩
  refine (List.perm_ext_iff_of_nodup h.nodup_keys.of_map (nodup_unique _)).2 fun c => ?_
  have hkept : ∀ c ∈ ordered, c ∈ unique lib (certs ++ ordered) := by
    intro c hc
    obtain ⟨before, after, rfl⟩ := List.append_of_mem hc
    refine mem_unique.2 ⟨certs ++ before, after, by simp, fun d hd hkey => ?_⟩
    have hkeys := h.nodup_keys
    rw [List.map_append, List.map_cons] at hkeys
    exact (List.nodup_cons.1 hkeys.of_append_right).1 (hkey ▸ List.mem_map_of_mem hd)
  refine ⟨hkept c, fun hc => ?_⟩
  have hbundle : c ∈ certs := by
    rcases List.mem_append.1 (mem_of_mem_unique hc) with hc | hc
    · exact hc
    · exact h.sub hc
  obtain ⟨d, hd, hkey⟩ := h.spans c hbundle
  rwa [List.inj_on_of_nodup_map (nodup_keys_unique _) hc (hkept d hd) hkey.symm]

/-- **(1) Choices.** The chains that some order of a bundle gives. -/
theorem chosen_iff : Chosen lib certs ordered ↔ ∃ certs', SameCerts certs certs' ∧ outcome lib certs' = some ordered := by
  constructor
  · intro h
    refine ⟨certs ++ ordered, fun c => ?_, h.outcome_append⟩
    rw [List.mem_append]
    exact ⟨fun hc => hc.elim id (h.sub ·), .inl⟩
  · rintro ⟨certs', hsame, h⟩
    exact (chosen_of_outcome h).same hsame.symm

/-! ## (2) Sound bundles -/

/-- without a clash, a bundle gives one chain at most, in every order -/
theorem outcome_of_noClash (hclash : NoClash lib certs) (h : Chosen lib certs ordered) (hsame : SameCerts certs certs') :
    outcome lib certs' = some ordered := by
  refine outcome_eq_some.2 ⟨h.chains, ?_⟩
  refine (List.perm_ext_iff_of_nodup h.nodup_keys.of_map (nodup_unique _)).2 fun c => ?_
  rw [h.noClash_iff.1 hclash c, ← hsame c]
  refine ⟨fun hc => ?_, mem_of_mem_unique⟩
  obtain ⟨d, hd, hkey⟩ : ∃ d ∈ unique lib _, key lib d = key lib c := exists_mem_unique hc
  rwa [hclash c ((hsame c).1 hc) d ((hsame d).1 (mem_of_mem_unique hd)) hkey.symm]

theorem terminates (certs : List Cert) : ∃ result, ∀ fuel, certs.length ≤ fuel → orderChain lib fuel certs =
    some result := by
  have hfuel : (unique lib certs).length ≤ certs.length := length_unique_le certs
  obtain ⟨result, hresult⟩ := Option.isSome_iff_exists.1 (orderChain_isSome hfuel)
  exact ⟨result, fun fuel hfuel => orderChain_of_le hfuel hresult⟩

/-- **(2) A bundle is ordered soundly** exactly when no choice of one certificate for each serial number and subject forms a
chain, or there is nothing to choose and no top certificate with two encodings of its name was issued by the first. -/
theorem order_chain_sound_iff :
    OrderSound lib certs ↔ ∀ ordered, Chosen lib certs ordered → NoClash lib certs ∧ ¬ ReEncodedTop lib ordered := by
  constructor
  · intro h ordered hchosen
    obtain ⟨certs', hsame, hout⟩ := chosen_iff.1 hchosen
    rw [h.stable certs' hsame] at hout
    exact ⟨hchosen.noClash_iff.2 (h.complete ordered hout), hchosen.chains.firstIsLeaf_iff.1 (h.leaf ordered hout)⟩
  · intro h
    have hfixed : ∀ ordered ∈ outcome lib certs, Chosen lib certs ordered := fun ordered hout => chosen_of_outcome hout
    refine ⟨terminates certs, fun certs' hsame => ?_, fun ordered hout => ?_, fun ordered hout => ?_,
      fun ordered hout => ?_,
      fun ordered hout => ?_⟩
    · by_cases hany : ∃ ordered, Chosen lib certs ordered
      · obtain ⟨ordered, hchosen⟩ := hany
        have hclash := (h ordered hchosen).1
        rw [outcome_of_noClash hclash hchosen hsame, outcome_of_noClash hclash hchosen fun _ => Iff.rfl]
      · have hnone : ∀ certs', SameCerts certs certs' → outcome lib certs' = none := by
          intro certs' hsame
          refine Option.eq_none_iff_forall_ne_some.2 fun ordered hout => hany ⟨ordered, ?_⟩
          exact (chosen_of_outcome hout).same hsame.symm
        rw [hnone certs' hsame, hnone certs fun _ => Iff.rfl]
    · exact (hfixed ordered hout).nodup_keys.of_map
    · have hchosen := hfixed ordered hout
      exact hchosen.noClash_iff.1 (h ordered hchosen).1
    · exact (hfixed ordered hout).chains.links.imp fun _ _ hlink => hlink.2
    · have hchosen := hfixed ordered hout
      exact hchosen.chains.firstIsLeaf_iff.2 (h ordered hchosen).2

/-! ## (3) An intermediate of two roots -/

/-- a CA certificate by its names and its serial number -/
def sampleCert (subject issuer : String) (serialNumber : ℤ) : X509 where
  subject := subject.toList
  issuer := issuer.toList
  commonName := none
  serialNumber := serialNumber
  publicKey := subject.toList
  notBefore := 0
  notAfter := 365 * day
  basicConstraints := some (true, none)
  hasKeyId := true
  nameConstraints := none

/-- **(3) Both roots gave the intermediate serial number 1.** With root A in the bundle, one order is refused, and the other
one is accepted without the certificate of root B. -/
theorem cross_signed_twice_lost :
    let rootA := sampleCert "A" "A" 7
    let subA := sampleCert "Sub" "A" 1
    let subB := sampleCert "Sub" "B" 1
    outcome (x509 sampleLib) [subA, subB, rootA] = none ∧ outcome (x509 sampleLib) [subB, subA, rootA] =
      some [subA, rootA] ∧
      ¬ OrderSound (x509 sampleLib) [subB, subA, rootA] := by
  intro rootA subA subB
  have hrefused : outcome (x509 sampleLib) [subA, subB, rootA] = none := by decide +kernel
  have haccepted : outcome (x509 sampleLib) [subB, subA, rootA] = some [subA, rootA] := by decide +kernel
  refine ⟨hrefused, haccepted, fun h => ?_⟩
  have hlost : subB ∈ [subA, rootA] := (h.complete _ haccepted subB).2 List.mem_cons_self
  exact absurd hlost (by decide +kernel)

end Chancery.Pki.ChainOrder
