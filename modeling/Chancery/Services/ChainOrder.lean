/-
Ordering an imported bundle (`_order_chain` of app/services/ca_service.py), for any kind of certificate.

A name has two comparisons: its bytes, which the tables of the code are keyed by, and its value, which `==` compares (two
encodings of one name are equal). The loop runs on fuel, and `walk_isSome` says how much is enough.

(1) `mem_unique`: what the first table keeps of a bundle, the last certificate of each serial number and subject.
(2) `orderChain_eq_ok`: a chain comes out exactly when the certificates that were kept form it (`Chains`).
(3) `orderChain_x509`: the imports of this development order their bundles this way.
-/
import Mathlib.Tactic
import Chancery.Services.CaService

namespace Chancery.Pki.ChainOrder

open Chancery.Core

/-- what `_order_chain` asks of a certificate -/
structure CertLib (Cert : Type) where
  serialNumber : Cert → ℤ
  /-- `cert.subject.public_bytes()` -/
  subject : Cert → Text
  /-- `cert.issuer.public_bytes()` -/
  issuer : Cert → Text
  /-- are the names with these encodings equal -/
  sameName : Text → Text → Bool
  sameName_refl : ∀ name, sameName name name = true
  /-- the signature of the first verifies with the key of the second -/
  signed : Cert → Cert → Bool
  /-- how the text about a signature that does not verify goes on -/
  reason : Cert → Cert → String

section Order

variable {Cert : Type} (lib : CertLib Cert)

/-- `cert.issuer == cert.subject` -/
def selfNamed (cert : Cert) : Bool := lib.sameName (lib.issuer cert) (lib.subject cert)

/-- `cert.verify_directly_issued_by(parent)` passes -/
def directlyIssued (cert parent : Cert) : Bool := lib.issuer cert == lib.subject parent && lib.signed cert parent

/-- the key of the first table -/
def key (cert : Cert) : ℤ × Text := (lib.serialNumber cert, lib.subject cert)

/-- `unique[key] = cert` -/
def assign (unique : List Cert) (cert : Cert) : List Cert :=
  if unique.any (fun c => key lib c == key lib cert) then unique.map fun c => if key lib c = key lib cert then cert else c
  else unique ++ [cert]

/-- the values of the first table -/
def unique (certs : List Cert) : List Cert := certs.foldl (assign lib) []

/-- the names that certificates of others were issued under -/
def issuerKeys (certs : List Cert) : List Text := (certs.filter fun c => !selfNamed lib c).map lib.issuer

/-- the certificates that issued none of the others -/
def leaves (certs : List Cert) : List Cert := certs.filter fun c => !(issuerKeys lib certs).contains (lib.subject c)

/-- `by_subject.get(name)` -/
def bySubject (certs : List Cert) (name : Text) : Option Cert := certs.reverse.find? (lib.subject · == name)

variable [DecidableEq Cert]

/-- the loop of `_order_chain` -/
def walk (certs : List Cert) : ℕ → Cert → List Cert → Option (Except PyError (List Cert))
  | 0, _, _ => none
  | fuel + 1, current, ordered =>
    if selfNamed lib current then some (.ok ordered)
    else
      match bySubject lib certs (lib.issuer current) with
      | none => some (.ok ordered)
      | some parent =>
        if parent ∈ ordered then some (.error (.valueError "The certificate bundle contains a loop."))
        else if !directlyIssued lib current parent then
          some (.error (.valueError ("Certificate chain does not verify" ++ lib.reason current parent)))
        else walk certs fuel parent (ordered ++ [parent])

/-- `_order_chain`: none when the fuel runs out -/
def orderChain (fuel : ℕ) (bundle : List Cert) : Option (Except PyError (List Cert)) :=
  let certs := unique lib bundle
  if certs.length = 1 then some (.ok certs)
  else
    match leaves lib certs with
    | [leaf] =>
      (walk lib certs fuel leaf [leaf]).map fun result => do
        let ordered ← result
        if ordered.length ≠ certs.length then
          .error (.valueError "The certificate bundle contains certificates that are not part of one chain.")
        else .ok ordered
    | _ => some (.error (.valueError "The certificate bundle does not form a single chain."))

end Order

section Lemmas

variable {Cert : Type} {lib : CertLib Cert} {certs ordered out : List Cert} {c d current parent leaf : Cert}
  {fuel : ℕ}

/-! ## (1) The first table -/

theorem mem_assign {unique : List Cert} :
    c ∈ assign lib unique d ↔ c = d ∨ c ∈ unique ∧ key lib c ≠ key lib d := by
  unfold assign
  by_cases hany : unique.any (fun c => key lib c == key lib d) = true
  · rw [if_pos hany, List.mem_map]
    obtain ⟨e, he, hkey⟩ := List.any_eq_true.1 hany
    constructor
    · rintro ⟨a, ha, rfl⟩
      split_ifs with heq
      · exact .inl rfl
      · exact .inr ⟨ha, heq⟩
    · rintro (rfl | ⟨hc, hne⟩)
      · exact ⟨e, he, if_pos (by simpa using hkey)⟩
      · exact ⟨c, hc, if_neg hne⟩
  · rw [if_neg hany, List.mem_append, List.mem_singleton]
    have hfresh : ∀ a ∈ unique, key lib a ≠ key lib d := by simpa using hany
    constructor
    · rintro (hc | rfl)
      · exact .inr ⟨hc, hfresh c hc⟩
      · exact .inl rfl
    · rintro (rfl | ⟨hc, -⟩)
      · exact .inr rfl
      · exact .inl hc

theorem unique_snoc (certs : List Cert) (c : Cert) : unique lib (certs ++ [c]) = assign lib (unique lib certs) c := by
  simp [unique]

/-- **(1) The first table** keeps the last certificate of each serial number and subject. -/
theorem mem_unique : c ∈ unique lib certs ↔ ∃ before after, certs = before ++ c :: after ∧ ∀ d ∈ after,
    key lib d ≠ key lib c := by
  induction certs using List.reverseRecOn with
  | nil => simp [unique]
  | append_singleton certs last ih =>
    rw [unique_snoc, mem_assign, ih]
    constructor
    · rintro (rfl | ⟨⟨before, after, rfl, hafter⟩, hne⟩)
      · exact ⟨certs, [], rfl, by simp⟩
      · refine ⟨before, after ++ [last], by simp, fun d hd => ?_⟩
        rcases List.mem_append.1 hd with hd | hd
        · exact hafter d hd
        · rw [List.mem_singleton.1 hd]
          exact hne.symm
    · rintro ⟨before, after, heq, hafter⟩
      rcases List.eq_nil_or_concat after with rfl | ⟨init, e, rfl⟩
      · exact .inl (List.singleton_inj.1 (List.append_inj' heq rfl).2).symm
      · have hsplit : certs ++ [last] = (before ++ c :: init) ++ [e] := by simpa using heq
        obtain ⟨hcerts, hlast⟩ := List.append_inj' hsplit rfl
        obtain rfl : last = e := List.singleton_inj.1 hlast
        exact .inr ⟨⟨before, init, hcerts, fun d hd => hafter d (by simp [hd])⟩, (hafter last (by simp)).symm⟩

theorem mem_of_mem_unique (h : c ∈ unique lib certs) : c ∈ certs := by
  obtain ⟨before, after, rfl, -⟩ := mem_unique.1 h
  simp

/-- every certificate is stood for by one with its key -/
theorem exists_mem_unique (h : c ∈ certs) : ∃ d ∈ unique lib certs, key lib d = key lib c := by
  induction certs using List.reverseRecOn with
  | nil => cases h
  | append_singleton certs last ih =>
    rw [unique_snoc]
    by_cases heq : key lib last = key lib c
    · exact ⟨last, mem_assign.2 (.inl rfl), heq⟩
    · rcases List.mem_append.1 h with h | h
      · obtain ⟨d, hd, hkey⟩ := ih h
        exact ⟨d, mem_assign.2 (.inr ⟨hd, fun hlast => heq (hlast.symm.trans hkey)⟩), hkey⟩
      · rw [List.mem_singleton.1 h] at heq
        exact absurd rfl heq

theorem nodup_keys_unique (certs : List Cert) : ((unique lib certs).map (key lib)).Nodup := by
  induction certs using List.reverseRecOn with
  | nil => exact List.nodup_nil
  | append_singleton certs last ih =>
    rw [unique_snoc]
    unfold assign
    by_cases hany : (unique lib certs).any (fun c => key lib c == key lib last) = true
    · rw [if_pos hany, List.map_map]
      have hkeys : (unique lib certs).map (key lib ∘ fun c => if key lib c = key lib last then last else c) =
          (unique lib certs).map (key lib) := by
        refine List.map_congr_left fun a _ => ?_
        simp only [Function.comp_apply]
        split_ifs with heq
        · exact heq.symm
        · rfl
      rw [hkeys]
      exact ih
    · rw [if_neg hany, List.map_append]
      refine List.nodup_append'.2 ⟨ih, by simp, ?_⟩
      have hfresh : ∀ a ∈ unique lib certs, key lib a ≠ key lib last := by simpa using hany
      simpa [List.disjoint_singleton] using hfresh

theorem nodup_unique (certs : List Cert) : (unique lib certs).Nodup := (nodup_keys_unique certs).of_map

theorem length_unique_le (certs : List Cert) : (unique lib certs).length ≤ certs.length :=
  ((nodup_unique certs).subperm fun _ h => mem_of_mem_unique h).length_le

/-! ## (2) Chains -/

/-- a certificate and the one after it in a chain -/
def Issues (lib : CertLib Cert) (cert parent : Cert) : Prop := selfNamed lib cert = false ∧
    directlyIssued lib cert parent = true

/-- certificates with subjects of their own, each issued by the next, and the last one not issued by any of them -/
structure Chains (lib : CertLib Cert) (ordered : List Cert) : Prop where
  ne_nil : ordered ≠ []
  subjects : (ordered.map lib.subject).Nodup
  links : ordered.IsChain (Issues lib)
  top : ∀ top ∈ ordered.getLast?, selfNamed lib top = true ∨ lib.issuer top ∉ ordered.map lib.subject

theorem mem_of_bySubject {name : Text} (h : bySubject lib certs name = some c) : c ∈ certs ∧ lib.subject c = name :=
  ⟨List.mem_reverse.1 (List.mem_of_find?_eq_some h), by simpa using List.find?_some h⟩

/-- a subject that occurs once is looked up -/
theorem bySubject_eq_some (hsubjects : (certs.map lib.subject).Nodup) (hc : c ∈ certs) :
    bySubject lib certs (lib.subject c) = some c := by
  unfold bySubject
  cases hfind : certs.reverse.find? (lib.subject · == lib.subject c) with
  | none => exact absurd (beq_self_eq_true _) (List.find?_eq_none.1 hfind c (List.mem_reverse.2 hc))
  | some d =>
    obtain ⟨hd, hname⟩ := mem_of_bySubject hfind
    exact congrArg some (List.inj_on_of_nodup_map hsubjects hd hc hname)

theorem issuer_of_directlyIssued (h : directlyIssued lib c d = true) : lib.issuer c = lib.subject d := by
  unfold directlyIssued at h
  simp only [Bool.and_eq_true, beq_iff_eq] at h
  exact h.1

theorem Issues.name (h : Issues lib c d) : lib.issuer c = lib.subject d := issuer_of_directlyIssued h.2

theorem mem_issuerKeys {name : Text} : name ∈ issuerKeys lib certs ↔ ∃ c ∈ certs, selfNamed lib c = false ∧ lib.issuer c =
    name := by
  simp [issuerKeys, and_assoc]

theorem mem_leaves : c ∈ leaves lib certs ↔ c ∈ certs ∧ lib.subject c ∉ issuerKeys lib certs := by
  simp [leaves]

/-- where the loop stands: the certificates so far, the current one last -/
structure Climbed (lib : CertLib Cert) (certs : List Cert) (current : Cert) (ordered : List Cert) : Prop where
  last : ordered.getLast? = some current
  nodup : ordered.Nodup
  sub : ordered ⊆ certs
  links : ordered.IsChain (Issues lib)
  /-- all but the first were looked up by their subject, which another certificate was issued under -/
  found : ∀ c ∈ ordered.tail, bySubject lib certs (lib.subject c) = some c ∧ lib.subject c ∈ issuerKeys lib certs

theorem Climbed.step (h : Climbed lib certs current ordered) (hself : selfNamed lib current = false)
    (hparent : bySubject lib certs (lib.issuer current) = some parent) (hloop : parent ∉ ordered)
    (hissued : directlyIssued lib current parent = true) : Climbed lib certs parent (ordered ++ [parent]) := by
  obtain ⟨hmem, hname⟩ := mem_of_bySubject hparent
  have hcurrent : current ∈ certs := h.sub (List.mem_of_getLast? h.last)
  have hne : ordered ≠ [] := by
    rintro rfl
    cases h.last
  refine ⟨by simp, List.nodup_append'.2 ⟨h.nodup, by simp, by simpa using hloop⟩,
    List.append_subset.2 ⟨h.sub, by simpa using hmem⟩, ?_, ?_⟩
  · refine List.isChain_append.2 ⟨h.links, List.isChain_singleton _, ?_⟩
    intro a ha b hb
    obtain rfl : current = a := Option.some.inj (h.last.symm.trans ha)
    obtain rfl : parent = b := by simpa using hb
    exact ⟨hself, hissued⟩
  · rw [List.tail_append_of_ne_nil hne]
    intro c hc
    rcases List.mem_append.1 hc with hc | hc
    · exact h.found c hc
    · obtain rfl : c = parent := List.mem_singleton.1 hc
      rw [hname]
      exact ⟨hparent, mem_issuerKeys.2 ⟨current, hcurrent, hself, rfl⟩⟩

/-- in a chain, everything after the first follows something -/
theorem exists_rel_of_mem_tail {R : Cert → Cert → Prop} {first : Cert} {rest : List Cert} (h : (first :: rest).IsChain R)
    (hc : c ∈ rest) : ∃ d ∈ first :: rest, R d c := by
  induction rest generalizing first with
  | nil => cases hc
  | cons next rest ih =>
    obtain ⟨hrel, htail⟩ := List.isChain_cons_cons.1 h
    rcases List.mem_cons.1 hc with rfl | hc
    · exact ⟨first, List.mem_cons_self, hrel⟩
    · obtain ⟨d, hd, hrel⟩ := ih htail hc
      exact ⟨d, List.mem_cons_of_mem _ hd, hrel⟩

/-- in a chain, everything but the last is followed by something -/
theorem exists_rel_of_mem {R : Cert → Cert → Prop} {first : Cert} {rest : List Cert} (h : (first :: rest).IsChain R)
    (hc : c ∈ first :: rest) : (first :: rest).getLast? = some c ∨ ∃ d ∈ rest, R c d := by
  induction rest generalizing first with
  | nil => exact .inl (congrArg some (List.mem_singleton.1 hc).symm)
  | cons next rest ih =>
    obtain ⟨hrel, htail⟩ := List.isChain_cons_cons.1 h
    rcases List.mem_cons.1 hc with rfl | hc
    · exact .inr ⟨next, List.mem_cons_self, hrel⟩
    · rcases ih htail hc with hlast | ⟨d, hd, hrel⟩
      · exact .inl (by simpa using hlast)
      · exact .inr ⟨d, List.mem_cons_of_mem _ hd, hrel⟩

theorem chains_singleton (c : Cert) : Chains lib [c] where
  ne_nil := List.cons_ne_nil c []
  subjects := List.nodup_singleton _
  links := List.isChain_singleton c
  top d hd := by
    obtain rfl : c = d := by simpa using hd
    by_cases hname : lib.issuer c = lib.subject c
    · exact .inl (by rw [selfNamed, hname, lib.sameName_refl])
    · exact .inr (by simpa using hname)

/-- what the loop ends with, when it has been everywhere -/
theorem Climbed.chains {top : Cert} {rest : List Cert} (h : Climbed lib certs top (leaf :: rest))
    (hleaf : leaf ∈ leaves lib certs)
    (hend : selfNamed lib top = true ∨ lib.issuer top ∉ certs.map lib.subject) (hperm : (leaf :: rest).Perm certs) :
    Chains lib (leaf :: rest) where
  ne_nil := List.cons_ne_nil leaf rest
  subjects := by
    refine List.nodup_cons.2 ⟨fun hmem => ?_, (List.nodup_cons.1 h.nodup).2.map_on fun x hx y hy hname => ?_⟩
    · obtain ⟨c, hc, hname⟩ := List.mem_map.1 hmem
      exact (mem_leaves.1 hleaf).2 (hname ▸ (h.found c hc).2)
    · have hx := (h.found x hx).1
      rw [hname, (h.found y hy).1] at hx
      exact (Option.some.inj hx).symm
  links := h.links
  top d hd := by
    obtain rfl : top = d := Option.some.inj (h.last.symm.trans hd)
    exact hend.imp_right fun hend hmem => hend ((hperm.map lib.subject).mem_iff.1 hmem)

/-- the only certificate of a chain that issued none of the others is the first -/
theorem leaves_eq {first : Cert} {rest : List Cert} (hchains : Chains lib (first :: rest))
    (hperm : (first :: rest).Perm certs) :
    leaves lib certs = [first] := by
  have hnodup : certs.Nodup := hperm.nodup_iff.1 hchains.subjects.of_map
  refine List.perm_singleton.1 ((List.perm_ext_iff_of_nodup (hnodup.filter _) (List.nodup_singleton first)).2 fun c => ?_)
  rw [← leaves, mem_leaves, List.mem_singleton, ← hperm.mem_iff, mem_issuerKeys]
  constructor
  · rintro ⟨hc, hnot⟩
    rcases List.mem_cons.1 hc with rfl | hc
    · rfl
    · obtain ⟨d, hd, hlink⟩ := exists_rel_of_mem_tail hchains.links hc
      exact absurd ⟨d, hperm.mem_iff.1 hd, hlink.1, hlink.name⟩ hnot
  · rintro rfl
    refine ⟨List.mem_cons_self, ?_⟩
    rintro ⟨d, hd, hself, hname⟩
    have hsubject : lib.subject c ∈ (c :: rest).map lib.subject := by simp
    rcases exists_rel_of_mem hchains.links (hperm.mem_iff.2 hd) with hlast | ⟨e, he, hlink⟩
    · rcases hchains.top d hlast with htop | htop
      · rw [hself] at htop
        cases htop
      · exact htop (hname ▸ hsubject)
    · have hsame : lib.subject e = lib.subject c := hlink.name.symm.trans hname
      exact (List.nodup_cons.1 hchains.subjects).1 (hsame ▸ List.mem_map_of_mem he)

/-! ## The loop -/

variable [DecidableEq Cert]

/-- more fuel changes nothing -/
theorem walk_succ {result : Except PyError (List Cert)} (h : walk lib certs fuel current ordered = some result) :
    walk lib certs (fuel + 1) current ordered = some result := by
  induction fuel generalizing current ordered with
  | zero => cases h
  | succ fuel ih =>
    unfold walk at h ⊢
    split_ifs at h ⊢ with hself
    · exact h
    · cases hparent : bySubject lib certs (lib.issuer current) with
      | none => rwa [hparent] at h
      | some parent =>
        rw [hparent] at h
        dsimp only at h ⊢
        split_ifs at h ⊢ with hloop hsigned
        · exact h
        · exact h
        · exact ih h

theorem walk_of_le {result : Except PyError (List Cert)} {fuel' : ℕ} (hle : fuel ≤ fuel')
    (h : walk lib certs fuel current ordered = some result) : walk lib certs fuel' current ordered = some result := by
  induction hle with
  | refl => exact h
  | step _ ih => exact walk_succ ih

/-- **Termination.** The loop never goes on for longer than there are certificates. -/
theorem walk_isSome (hnodup : ordered.Nodup) (hsub : ordered ⊆ certs) (hfuel : certs.length < fuel + ordered.length) :
    (walk lib certs fuel current ordered).isSome := by
  induction fuel generalizing current ordered with
  | zero =>
    have hle := (hnodup.subperm hsub).length_le
    omega
  | succ fuel ih =>
    unfold walk
    split_ifs
    · rfl
    · cases hparent : bySubject lib certs (lib.issuer current) with
      | none => rfl
      | some parent =>
        dsimp only
        split_ifs with hloop hsigned
        · rfl
        · rfl
        · refine ih (List.nodup_append'.2 ⟨hnodup, by simp, by simpa using hloop⟩) ?_ (by simp; omega)
          exact List.append_subset.2 ⟨hsub, by simpa using (mem_of_bySubject hparent).1⟩

/-- what the loop ends with -/
theorem walk_ok (h : walk lib certs fuel current ordered = some (.ok out)) (hclimbed : Climbed lib certs current ordered) :
    ∃ top, Climbed lib certs top out ∧ out.head? = ordered.head? ∧
      (selfNamed lib top = true ∨ lib.issuer top ∉ certs.map lib.subject) := by
  induction fuel generalizing current ordered with
  | zero => cases h
  | succ fuel ih =>
    unfold walk at h
    by_cases hself : selfNamed lib current = true
    · rw [if_pos hself] at h
      cases h
      exact ⟨current, hclimbed, rfl, .inl hself⟩
    rw [if_neg hself] at h
    cases hparent : bySubject lib certs (lib.issuer current) with
    | none =>
      rw [hparent] at h
      cases h
      refine ⟨current, hclimbed, rfl, .inr ?_⟩
      unfold bySubject at hparent
      simpa using hparent
    | some parent =>
      rw [hparent] at h
      dsimp only at h
      by_cases hloop : parent ∈ ordered
      · rw [if_pos hloop] at h
        cases h
      rw [if_neg hloop] at h
      by_cases hissued : directlyIssued lib current parent = true
      swap
      · rw [if_pos (by simpa using hissued)] at h
        cases h
      rw [if_neg (by simp [hissued])] at h
      obtain ⟨top, htop, hhead, hend⟩ := ih h (hclimbed.step (by simpa using hself) hparent hloop hissued)
      refine ⟨top, htop, hhead.trans ?_, hend⟩
      have hne : ordered ≠ [] := by
        rintro rfl
        cases hclimbed.last
      exact List.head?_append_of_ne_nil ordered hne

/-- the loop climbs a chain to its end -/
theorem walk_chain (hchains : Chains lib ordered) (hperm : ordered.Perm certs) {before after : List Cert}
    (hsplit : ordered = before ++ current :: after) (hfuel : after.length < fuel) :
    walk lib certs fuel current (before ++ [current]) = some (.ok ordered) := by
  have hsubjects : (certs.map lib.subject).Nodup := (hperm.map lib.subject).nodup_iff.1 hchains.subjects
  induction after generalizing before current fuel with
  | nil =>
    obtain ⟨fuel, rfl⟩ := Nat.exists_eq_succ_of_ne_zero (Nat.pos_iff_ne_zero.1 hfuel)
    unfold walk
    split_ifs with hself
    · rw [hsplit]
    · have htop := (hchains.top current (by simp [hsplit])).resolve_left hself
      have hnone : bySubject lib certs (lib.issuer current) = none := by
        unfold bySubject
        refine List.find?_eq_none.2 fun d hd hname => htop ?_
        exact List.mem_map.2 ⟨d, hperm.mem_iff.2 (List.mem_reverse.1 hd), by simpa using hname⟩
      rw [hnone, hsplit]
  | cons parent after ih =>
    obtain ⟨fuel, rfl⟩ := Nat.exists_eq_succ_of_ne_zero (Nat.pos_iff_ne_zero.1 (Nat.lt_of_le_of_lt (Nat.zero_le _) hfuel))
    have hlink : Issues lib current parent := by
      have hlinks := hchains.links
      rw [hsplit] at hlinks
      exact (List.isChain_append.1 hlinks).2.1.rel
    have hparent : parent ∈ certs := hperm.mem_iff.1 (by simp [hsplit])
    have hloop : parent ∉ before ++ [current] := by
      have hnodup := hchains.subjects.of_map
      rw [hsplit, List.append_cons] at hnodup
      intro hmem
      exact List.disjoint_of_nodup_append hnodup hmem List.mem_cons_self
    unfold walk
    rw [if_neg (by simp [hlink.1]), hlink.name, bySubject_eq_some hsubjects hparent]
    dsimp only
    rw [if_neg hloop, if_neg (by simp [hlink.2])]
    exact ih (by simp [hsplit]) (by simpa using hfuel)

/-- **(2) Chains.** A chain comes out exactly when it is made of the certificates that were kept. -/
theorem orderChain_eq_ok {bundle : List Cert} (hfuel : (unique lib bundle).length ≤ fuel) :
    orderChain lib fuel bundle = some (.ok out) ↔ Chains lib out ∧ out.Perm (unique lib bundle) := by
  have hnodup : (unique lib bundle).Nodup := nodup_unique bundle
  unfold orderChain
  generalize unique lib bundle = certs at hfuel hnodup
  dsimp only
  by_cases hone : certs.length = 1
  · obtain ⟨c, rfl⟩ := List.length_eq_one_iff.1 hone
    rw [if_pos hone]
    constructor
    · intro h
      cases h
      exact ⟨chains_singleton c, .refl _⟩
    · rintro ⟨-, hperm⟩
      rw [List.perm_singleton.1 hperm]
  rw [if_neg hone]
  constructor
  · intro h
    split at h
    swap
    · cases h
    rename_i leaf hleaves
    have hleaf : leaf ∈ leaves lib certs := by simp [hleaves]
    have hmem : leaf ∈ certs := (mem_leaves.1 hleaf).1
    obtain ⟨result, hwalk, hresult⟩ := Option.map_eq_some_iff.1 h
    obtain ⟨ordered, rfl, hlast⟩ := bind_eq_ok.1 hresult
    by_cases hlength : ordered.length = certs.length
    swap
    · rw [if_pos hlength] at hlast
      cases hlast
    rw [if_neg (not_not.2 hlength)] at hlast
    cases hlast
    obtain ⟨top, hclimbed, hhead, hend⟩ :=
      walk_ok hwalk ⟨rfl, List.nodup_singleton _, by simpa using hmem, List.isChain_singleton _, by simp⟩
    obtain ⟨rest, rfl⟩ : ∃ rest, out = leaf :: rest := List.head?_eq_some_iff.1 hhead
    have hperm : (leaf :: rest).Perm certs :=
      (hclimbed.nodup.subperm hclimbed.sub).perm_of_length_le hlength.ge
    exact ⟨hclimbed.chains hleaf hend hperm, hperm⟩
  · rintro ⟨hchains, hperm⟩
    obtain ⟨first, rest, rfl⟩ := List.exists_cons_of_ne_nil hchains.ne_nil
    have hlength : rest.length + 1 = certs.length := hperm.length_eq
    have hwalk : walk lib certs fuel first [first] = some (.ok (first :: rest)) :=
      walk_chain hchains hperm (List.nil_append (first :: rest)).symm (by omega)
    rw [leaves_eq hchains hperm]
    simp [hwalk, hlength, bind, Except.bind]

/-- the loop of an ordering comes to its end -/
theorem orderChain_isSome {bundle : List Cert} (hfuel : (unique lib bundle).length ≤ fuel) :
    (orderChain lib fuel bundle).isSome := by
  unfold orderChain
  dsimp only
  split_ifs
  · rfl
  · split
    · rename_i leaf hleaves
      have hleaf : leaf ∈ leaves lib (unique lib bundle) := by simp [hleaves]
      rw [Option.isSome_map]
      exact walk_isSome (List.nodup_singleton leaf) (by simpa using (mem_leaves.1 hleaf).1) (by simpa using hfuel)
    · rfl

/-- and more fuel changes nothing -/
theorem orderChain_of_le {bundle : List Cert} {fuel' : ℕ} {result : Except PyError (List Cert)} (hle : fuel ≤ fuel')
    (h : orderChain lib fuel bundle = some result) : orderChain lib fuel' bundle = some result := by
  unfold orderChain at h ⊢
  dsimp only at h ⊢
  split_ifs at h ⊢
  · exact h
  · split at h
    · obtain ⟨walked, hwalk, hresult⟩ := Option.map_eq_some_iff.1 h
      exact Option.map_eq_some_iff.2 ⟨walked, walk_of_le hle hwalk, hresult⟩
    · exact h

/-! ## (3) The imports of this development -/

end Lemmas

/-- the certificates of the CA tables: one encoding for each name -/
def x509 (lib : Lib) : CertLib X509 where
  serialNumber := X509.serialNumber
  subject := X509.subject
  issuer := X509.issuer
  sameName a b := a == b
  sameName_refl name := beq_self_eq_true name
  signed := lib.directlyIssued
  reason _ _ := ""

section Imports

variable {lib : Lib}

theorem unique_x509 (bundle : List X509) : unique (x509 lib) bundle = uniqueCerts bundle := by
  unfold unique uniqueCerts
  congr 1
  funext acc cert
  simp [assign, key, x509, Prod.ext_iff]

theorem climbChain_of_walk {certs : List X509} {fuel : ℕ} {current : X509} {ordered : List X509}
    {result : Except PyError (List X509)} (h : walk (x509 lib) certs fuel current ordered = some result) :
    climbChain lib certs fuel current ordered = result := by
  induction fuel generalizing current ordered with
  | zero => cases h
  | succ fuel ih =>
    unfold walk at h
    unfold climbChain
    have hself : selfNamed (x509 lib) current = true ↔ current.issuer = current.subject := by simp [selfNamed, x509]
    by_cases hown : current.issuer = current.subject
    · rw [if_pos (hself.2 hown)] at h
      rw [if_pos hown]
      exact Option.some.inj h
    rw [if_neg (mt hself.1 hown)] at h
    rw [if_neg hown]
    have hfind : bySubject (x509 lib) certs ((x509 lib).issuer current) =
        certs.reverse.find? (·.subject == current.issuer) := rfl
    rw [hfind] at h
    cases hparent : certs.reverse.find? (·.subject == current.issuer) with
    | none =>
      rw [hparent] at h
      exact Option.some.inj h
    | some parent =>
      rw [hparent] at h
      dsimp only at h ⊢
      have hname : parent.subject = current.issuer := by simpa using List.find?_some hparent
      have hissued : directlyIssued (x509 lib) current parent = lib.directlyIssued current parent := by
        simp [directlyIssued, x509, hname]
      rw [hissued] at h
      split_ifs at h ⊢
      · exact Option.some.inj h
      · exact Option.some.inj h
      · exact ih h

/-- **(3) The imports** order their bundles this way. -/
theorem orderChain_x509 (bundle : List X509) :
    ChainOrder.orderChain (x509 lib) bundle.length bundle = some (Pki.orderChain lib bundle) := by
  have hle : (unique (x509 lib) bundle).length ≤ bundle.length := length_unique_le bundle
  refine orderChain_of_le hle ?_
  obtain ⟨result, hresult⟩ := Option.isSome_iff_exists.1 (orderChain_isSome (le_refl (unique (x509 lib) bundle).length))
  rw [hresult]
  congr 1
  unfold ChainOrder.orderChain at hresult
  unfold Pki.orderChain
  rw [unique_x509] at hresult
  have hleaves : leaves (x509 lib) (uniqueCerts bundle) =
      (uniqueCerts bundle).filter fun c =>
        !(((uniqueCerts bundle).filter fun c => c.issuer != c.subject).map (·.issuer)).contains c.subject := rfl
  dsimp only at hresult ⊢
  rw [hleaves] at hresult
  split_ifs at hresult ⊢
  · exact (Option.some.inj hresult).symm
  · split at hresult
    · rename_i leaf heq
      rw [heq]
      obtain ⟨walked, hwalk, hwalked⟩ := Option.map_eq_some_iff.1 hresult
      dsimp only
      rw [climbChain_of_walk hwalk]
      exact hwalked.symm
    · rename_i hnot
      split
      · rename_i leaf heq
        exact absurd heq (hnot leaf)
      · exact (Option.some.inj hresult).symm

end Imports

end Chancery.Pki.ChainOrder
