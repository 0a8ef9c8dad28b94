/-
`check_names` against RFC 5280, for any constraints record, any list of names, and all four kinds.

`Inside` is the rule: letter case and trailing dots of host names do not matter, an empty dNSName contains every name.
The code follows it except for the pairs in `Missed`: an empty dNSName entry contains nothing, a mailbox or mail host and
its entry are compared with their trailing dots, and an entry of dots alone contains no URI.

(1) `within_iff`: `_WITHIN` holds of a name and an entry exactly when the name is inside and the pair is not missed.
(2) `checkNames_conforms_iff`: `check_names` decides as the rule does unless missed pairs decide, and these are two kinds of
inputs: `ExclusionMissed` fails open, `PermissionMissed` refuses what is permitted.
-/
import Mathlib.Tactic
import Chancery.Services.NameConstraintEntries

namespace Chancery.NameConstraints

open Chancery.Core
open San (Kind)

/-! ## The rule -/

/-- a host name or an entry without letter case and trailing dots -/
def hostForm (uni : Unicode) (t : Text) : Text := rstripDots (uni.lower t)

/-- the host of a mailbox or URI, in its `hostForm`, is inside the entry -/
def HostInside (uni : Unicode) (host e : Text) : Prop :=
  if ['.'].isPrefixOf (uni.lower e) then hostForm uni e <:+ host else host = hostForm uni e

/-- the name is inside the entry -/
def Inside (L : NameLib) : Kind → Text → Text → Prop
  | .dns, name, e =>
    let name := hostForm L.uni name
    let e := hostForm L.uni e
    e = [] ∨ (if ['.'].isPrefixOf e then e <:+ name else name = e ∨ '.' :: e <:+ name)
  | .email, name, e =>
    if '@' ∈ L.uni.lower e then hostForm L.uni name = hostForm L.uni e
    else HostInside L.uni (rstripDots (afterLast '@' (L.uni.lower name))) e
  | .uri, name, e => ∃ host, L.urlHost name = .ok host ∧ hostForm L.uni host ≠ [] ∧ HostInside L.uni (hostForm L.uni host) e
  | .ip, name, e =>
    ∃ addr net, L.ipAddress name = some addr ∧ L.ipNetwork e = some net ∧
      addr.version = net.version ∧ addr.value &&& net.netmask = net.network
  | .upn, _, _ => False

/-- a mailbox and an entry without trailing dots ignored: equal mailboxes, equal hosts, or the host ends with the entry -/
def MailMatch (name e : Text) : Prop :=
  if '@' ∈ e then name = e
  else if ['.'].isPrefixOf e then e <:+ afterLast '@' name
  else afterLast '@' name = e

/-- the name is inside the entry, and the code does not see it -/
def Missed (L : NameLib) : Kind → Text → Text → Prop
  | .dns, name, e => hostForm L.uni e = [] ∧ hostForm L.uni name ≠ []
  | .email, name, e => Inside L .email name e ∧ ¬ MailMatch (L.uni.lower name) (L.uni.lower e)
  | .uri, name, e => Inside L .uri name e ∧ hostForm L.uni e = []
  | _, _, _ => False

/-- a name the matching can be asked about: a kind it knows, no wildcard, a URI that can be parsed -/
def Plain (L : NameLib) : Kind × Text → Prop
  | (.dns, v) => ['*', '.'].isPrefixOf (hostForm L.uni v) = false
  | (.uri, v) => ∃ host, L.urlHost v = .ok host
  | (.upn, _) => False
  | _ => True

/-- what RFC 5280 asks of a list of names -/
def Conforms (L : NameLib) (c : Option Constraints) (names : List (Kind × Text)) : Prop :=
  ∀ n ∈ names, (∀ e ∈ entriesOf L.uni n.1 Constraints.excluded c, ¬ Inside L n.1 n.2 e) ∧
    (entriesOf L.uni n.1 Constraints.permitted c = [] ∨
      ∃ e ∈ entriesOf L.uni n.1 Constraints.permitted c, Inside L n.1 n.2 e)

/-! ## Suffixes and dots -/

theorem rstripDots_concat (t : Text) (x : Char) : rstripDots (t ++ [x]) = if x = '.' then rstripDots t else t ++ [x] := by
  unfold rstripDots
  rw [List.rdropWhile_concat]
  simp

/-- what is left does not end with a dot -/
theorem not_dot_suffix_rstripDots (t : Text) : ¬ ['.'] <:+ rstripDots t := by
  induction t using List.reverseRecOn with
  | nil => simp [rstripDots]
  | append_singleton t x ih =>
    rw [rstripDots_concat]
    split_ifs with hx
    · exact ih
    · rintro ⟨s, hs⟩
      have hlast : '.' = x := by simpa using congrArg List.getLast? hs
      exact hx hlast.symm

theorem rstripDots_append {s t : Text} (h : rstripDots t ≠ []) : rstripDots (s ++ t) = s ++ rstripDots t := by
  induction t using List.reverseRecOn with
  | nil => exact absurd rfl h
  | append_singleton t x ih =>
    rw [rstripDots_concat] at h
    rw [← List.append_assoc, rstripDots_concat, rstripDots_concat]
    split_ifs with hx
    · rw [if_pos hx] at h
      exact ih h
    · rw [List.append_assoc]

/-- stripping dots keeps suffixes -/
theorem rstripDots_suffix {s t : Text} (h : s <:+ t) : rstripDots s <:+ rstripDots t := by
  obtain ⟨p, rfl⟩ := h
  by_cases hs : rstripDots s = []
  · rw [hs]
    exact List.nil_suffix
  · rw [rstripDots_append hs]
    exact List.suffix_append _ _

/-- a dot in front stays, unless nothing stays -/
theorem dot_prefix_rstripDots {t : Text} (h : rstripDots t ≠ []) :
    ['.'].isPrefixOf (rstripDots t) = ['.'].isPrefixOf t := by
  obtain ⟨p, hp⟩ := List.rdropWhile_prefix (· == '.') (l := t)
  cases hr : rstripDots t with
  | nil => exact absurd hr h
  | cons c rest =>
    have ht : t = c :: (rest ++ p) := by
      rw [← hp]
      unfold rstripDots at hr
      rw [hr]
      rfl
    rw [ht]
    simp [List.isPrefixOf]

variable {L : NameLib} {kind : Kind} {v e : Text}

/-! ## One name and one entry -/

theorem within_dns_iff (h : Plain L (.dns, v)) : dnsWithin L.uni v e = true ↔ Inside L .dns v e ∧ ¬ Missed L .dns v e := by
  have hplain : ['*', '.'].isPrefixOf (rstripDots (L.uni.lower v)) = false := h
  simp only [dnsWithin, hplain, Inside, Missed, hostForm, endsWith]
  by_cases he : rstripDots (L.uni.lower e) = []
  · -- the code looks for the empty name, or for a final dot
    have hdot := not_dot_suffix_rstripDots (L.uni.lower v)
    simp [he, hdot]
  · by_cases hlead : ['.'].isPrefixOf (rstripDots (L.uni.lower e)) = true
    · simp [he, hlead]
    · simp [he, hlead]

theorem emailWithin_iff : emailWithin L.uni v e = true ↔ MailMatch (L.uni.lower v) (L.uni.lower e) := by
  simp only [emailWithin, MailMatch, endsWith]
  by_cases hat : '@' ∈ L.uni.lower e
  · simp [hat]
  · by_cases hlead : ['.'].isPrefixOf (L.uni.lower e) = true
    · simp [hat, hlead]
    · simp [hat, hlead]

/-- a literal match is a match -/
theorem inside_of_mailMatch (h : MailMatch (L.uni.lower v) (L.uni.lower e)) : Inside L .email v e := by
  unfold MailMatch at h
  simp only [Inside, HostInside, hostForm]
  by_cases hat : '@' ∈ L.uni.lower e
  · rw [if_pos hat] at h ⊢
    rw [h]
  · rw [if_neg hat] at h ⊢
    by_cases hlead : ['.'].isPrefixOf (L.uni.lower e) = true
    · rw [if_pos hlead] at h ⊢
      exact rstripDots_suffix h
    · rw [if_neg hlead] at h ⊢
      rw [h]

theorem within_email_iff : emailWithin L.uni v e = true ↔ Inside L .email v e ∧ ¬ Missed L .email v e := by
  rw [emailWithin_iff]
  simp only [Missed, not_and, not_not]
  exact ⟨fun h => ⟨inside_of_mailMatch h, fun _ => h⟩, fun h => h.2 h.1⟩

theorem within_uri_iff (h : Plain L (.uri, v)) : uriWithin L v e = .ok true ↔ Inside L .uri v e ∧ ¬ Missed L .uri v e := by
  obtain ⟨host, hhost⟩ : ∃ host, L.urlHost v = .ok host := h
  simp only [uriWithin, hhost, Inside, Missed, Except.ok.injEq, exists_eq_left', HostInside, hostForm, endsWith]
  by_cases hempty : rstripDots (L.uni.lower host) = []
  · simp [hempty]
  · by_cases he : rstripDots (L.uni.lower e) = []
    · simp [hempty, he]
    · rw [if_neg hempty, ← dot_prefix_rstripDots he]
      by_cases hlead : ['.'].isPrefixOf (rstripDots (L.uni.lower e)) = true
      · simp [hempty, he, hlead]
      · simp [hempty, he, hlead]

theorem within_ip_iff : ipWithin L v e = true ↔ Inside L .ip v e := by
  simp only [ipWithin, Inside]
  cases L.ipNetwork e with
  | none => simp
  | some net =>
    cases L.ipAddress v with
    | none => simp
    | some addr => simp [IpNet.contains]

theorem within_eq_ok (h : Plain L (kind, v)) (e : Text) : ∃ b, within L kind v e = .ok b := by
  cases kind with
  | uri =>
    obtain ⟨host, hhost⟩ : ∃ host, L.urlHost v = .ok host := h
    simp only [within, uriWithin, hhost]
    split_ifs <;> exact ⟨_, rfl⟩
  | upn => exact absurd h id
  | _ => exact ⟨_, rfl⟩

/-- **One name and one entry.** `_WITHIN` is the rule but for the missed pairs. -/
theorem within_iff (h : Plain L (kind, v)) : within L kind v e = .ok true ↔ Inside L kind v e ∧ ¬ Missed L kind v e := by
  cases kind with
  | dns => simpa only [within, Except.ok.injEq] using within_dns_iff h
  | email => simpa only [within, Except.ok.injEq] using within_email_iff
  | uri => simpa only [within] using within_uri_iff h
  | ip => simpa only [within, Except.ok.injEq, Missed, not_false_eq_true, and_true] using within_ip_iff
  | upn => exact absurd h id

theorem Missed.inside (h : Missed L kind v e) : Inside L kind v e := by
  cases kind with
  | dns => exact .inl h.1
  | email => exact h.1
  | uri => exact h.1
  | ip => exact absurd h id
  | upn => exact absurd h id

/-! ## Lists of names -/

/-- requested names are of the four kinds -/
theorem constrained_of_requestedSans {uni : Unicode} {san : List Text} {names : List (Kind × Text)}
    (h : requestedSans uni san = .ok names) : ∀ n ∈ names, constrained n.1 = true := by
  induction san generalizing names with
  | nil =>
    cases h
    exact fun _ hn => absurd hn List.not_mem_nil
  | cons entry rest ih =>
    obtain ⟨parsed, -, h⟩ := bind_eq_ok.1 h
    obtain ⟨names', hnames', h⟩ := bind_eq_ok.1 h
    cases parsed with
    | none =>
      cases h
      exact ih hnames'
    | some kv =>
      obtain ⟨kind, value⟩ := kv
      by_cases hk : constrained kind = true
      · simp only [hk, if_true] at h
        cases h
        exact List.forall_mem_cons.2 ⟨hk, ih hnames'⟩
      · simp only [hk] at h
        cases h
        exact ih hnames'

theorem constrained_of_requestedNames {uni : Unicode} {cn : Option Text} {san : List Text} {names : List (Kind × Text)}
    (h : requestedNames uni cn san = .ok names) : ∀ n ∈ names, constrained n.1 = true := by
  obtain ⟨names', hnames', h⟩ := bind_eq_ok.1 h
  have hsans := constrained_of_requestedSans hnames'
  cases cn with
  | none =>
    cases h
    exact hsans
  | some cn =>
    simp only at h
    split_ifs at h
    · cases h
      intro n hn
      rcases List.mem_append.1 hn with hn | hn
      · exact hsans n hn
      · rw [List.mem_singleton.1 hn]
        rfl
    · cases h
      exact hsans

/-- No excluded entry contains a name and sees it, every name has a permitted entry that contains and sees it where there
are any, and some excluded entry contains a name without seeing it. -/
def ExclusionMissed (L : NameLib) (c : Option Constraints) (names : List (Kind × Text)) : Prop :=
  (∀ n ∈ names, (∀ e ∈ entriesOf L.uni n.1 Constraints.excluded c, Inside L n.1 n.2 e → Missed L n.1 n.2 e) ∧
    (entriesOf L.uni n.1 Constraints.permitted c = [] ∨
      ∃ e ∈ entriesOf L.uni n.1 Constraints.permitted c, Inside L n.1 n.2 e ∧ ¬ Missed L n.1 n.2 e)) ∧
    ∃ n ∈ names, ∃ e ∈ entriesOf L.uni n.1 Constraints.excluded c, Missed L n.1 n.2 e

/-- The rule accepts, and some name has permitted entries of its kind, of which none that contains it sees it. -/
def PermissionMissed (L : NameLib) (c : Option Constraints) (names : List (Kind × Text)) : Prop :=
  Conforms L c names ∧
    ∃ n ∈ names, entriesOf L.uni n.1 Constraints.permitted c ≠ [] ∧
      ∀ e ∈ entriesOf L.uni n.1 Constraints.permitted c, Inside L n.1 n.2 e → Missed L n.1 n.2 e

/-- what the code asks of a list of names -/
theorem checkNames_iff {c : Option Constraints} {names : List (Kind × Text)} {label : String}
    (hplain : ∀ n ∈ names, Plain L n) :
    checkNames L c names label = .ok () ↔
      ∀ n ∈ names, (∀ e ∈ entriesOf L.uni n.1 Constraints.excluded c, Inside L n.1 n.2 e → Missed L n.1 n.2 e) ∧
        (entriesOf L.uni n.1 Constraints.permitted c = [] ∨
          ∃ e ∈ entriesOf L.uni n.1 Constraints.permitted c, Inside L n.1 n.2 e ∧ ¬ Missed L n.1 n.2 e) := by
  rw [checkNames_ok_iff]
  refine forall₂_congr fun n hn => ?_
  have hn' : Plain L (n.1, n.2) := hplain n hn
  rw [show n = (n.1, n.2) from rfl, accepts_iff (within_eq_ok hn')]
  simp only [Ne, within_iff hn', not_and, not_not]

/-- the code and the rule disagree on a list in two ways -/
theorem checkNames_disagrees_iff {c : Option Constraints} {names : List (Kind × Text)} {label : String}
    (hplain : ∀ n ∈ names, Plain L n) :
    (checkNames L c names label = .ok () ↔ Conforms L c names) ↔
      ¬ ExclusionMissed L c names ∧ ¬ PermissionMissed L c names := by
  constructor
  · intro h
    constructor
    · rintro ⟨hcode, n, hn, e, he, hmiss⟩
      exact (h.1 ((checkNames_iff hplain).2 hcode) n hn).1 e he hmiss.inside
    · rintro ⟨hrule, n, hn, hsome, hall⟩
      rcases ((checkNames_iff hplain).1 (h.2 hrule) n hn).2 with hnone | ⟨e, he, hin, hseen⟩
      · exact hsome hnone
      · exact hseen (hall e he hin)
  · rintro ⟨hexcl, hperm⟩
    constructor
    · -- fails open only when some excluded entry misses a name
      intro hcode
      have hcode := (checkNames_iff hplain).1 hcode
      intro n hn
      refine ⟨fun e he hin => hexcl ⟨hcode, n, hn, e, he, (hcode n hn).1 e he hin⟩, ?_⟩
      exact (hcode n hn).2.imp_right fun ⟨e, he, hin, _⟩ => ⟨e, he, hin⟩
    · -- refuses what is permitted only when all its permitted entries miss a name
      intro hrule
      refine (checkNames_iff hplain).2 fun n hn => ⟨fun e he hin => absurd hin ((hrule n hn).1 e he), ?_⟩
      by_cases hsome : entriesOf L.uni n.1 Constraints.permitted c = []
      · exact .inl hsome
      · by_contra hno
        push Not at hno
        exact hperm ⟨hrule, n, hn, hsome, hno.2⟩

/-- **`check_names` and RFC 5280.** For every record and every list of requested names without wildcards whose URIs can be
parsed, `check_names` accepts exactly when the rule does, unless an exclusion or a permission is missed. -/
theorem checkNames_conforms_iff (L : NameLib) (c : Option Constraints) (cn : Option Text) (san : List Text)
    (names : List (Kind × Text)) (label : String) (hnames : requestedNames L.uni cn san = .ok names)
    (hplain : ∀ v, (Kind.dns, v) ∈ names → ['*', '.'].isPrefixOf (hostForm L.uni v) = false)
    (huri : ∀ v, (Kind.uri, v) ∈ names → ∃ host, L.urlHost v = .ok host) :
    (checkNames L c names label = .ok () ↔ Conforms L c names) ↔
      ¬ ExclusionMissed L c names ∧ ¬ PermissionMissed L c names := by
  refine checkNames_disagrees_iff fun n hn => ?_
  obtain ⟨kind, v⟩ := n
  have hkind : constrained kind = true := constrained_of_requestedNames hnames _ hn
  cases kind with
  | dns => exact hplain v hn
  | uri => exact huri v hn
  | upn => cases hkind
  | email => trivial
  | ip => trivial

/-! ## Examples -/

/-- no addresses, and a URI is its host -/
def hostsOnly : NameLib :=
  ⟨Unicode.ascii, fun _ => none, fun _ => none, fun _ => [], fun v => .ok v, fun _ => true, fun _ _ => true⟩

def hostsLib : ConstraintLib := ⟨hostsOnly, fun _ => [], fun _ => ""⟩

/-- a certificate that excludes every dNSName -/
def noHosts : NameConstraintsExt := ⟨none, some [.dns []]⟩

/-- a CA that may certify one domain, and a request for a host of it -/
def oneDomain : Option Constraints := some ⟨["DNS:example.com".toList], []⟩

/-- the theorem applies to that request: it is granted, so it conforms -/
theorem checkNames_conforms_iff_oneDomain :
    Conforms hostsOnly oneDomain [(.dns, "www.example.com".toList)] := by
  have hname : ∀ {n : Kind × Text}, n ∈ [(Kind.dns, "www.example.com".toList)] →
      entriesOf hostsOnly.uni n.1 Constraints.excluded oneDomain = [] ∧
        ∀ e ∈ entriesOf hostsOnly.uni n.1 Constraints.permitted oneDomain, ¬ Missed hostsOnly n.1 n.2 e := by
    intro n hn
    rw [List.mem_singleton.1 hn]
    refine ⟨by decide, fun e he hmissed => ?_⟩
    rw [List.mem_singleton.1 he] at hmissed
    exact absurd hmissed.1 (by decide)
  refine ((checkNames_conforms_iff hostsOnly oneDomain none ["www.example.com".toList] _ "the CA" (by decide)
    (by simp; decide) (by simp)).2 ⟨?_, ?_⟩).1 (by decide)
  · rintro ⟨-, n, hn, e, he, -⟩
    rw [(hname hn).1] at he
    exact absurd he List.not_mem_nil
  · rintro ⟨hrule, n, hn, hsome, hall⟩
    obtain ⟨e, he, hin⟩ := (hrule n hn).2.resolve_left hsome
    exact (hname hn).2 e he (hall e he hin)

/-- the empty dNSName excludes nothing -/
theorem empty_entry_excludes_nothing :
    ¬ ∀ (lib : ConstraintLib) (c : Option Constraints), Producible lib c →
      ∀ (cn : Option Text) (san : List Text) (names : List (Kind × Text)) (label : String),
        requestedNames lib.names.uni cn san = .ok names →
        (∀ v, (Kind.dns, v) ∈ names → ['*', '.'].isPrefixOf (hostForm lib.names.uni v) = false) →
        (∀ v, (Kind.uri, v) ∈ names → ∃ host, lib.names.urlHost v = .ok host) →
        (checkNames lib.names c names label = .ok () ↔ Conforms lib.names c names) := by
  intro h
  have hiff := h hostsLib (fromCertificate hostsLib (some noHosts)) (.inr ⟨_, rfl⟩) none ["www.example.com".toList]
    [(.dns, "www.example.com".toList)] "the CA" (by decide) (by simp; decide) (by simp)
  have hrule := hiff.1 (by decide)
  exact (hrule _ List.mem_cons_self).1 [] (by decide) (.inl (by decide))

end Chancery.NameConstraints
