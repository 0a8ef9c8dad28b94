/-
Wildcards and name constraints: what `check_names` says about `*.b`, and about the hosts `l.b` it matches.

For a wildcard `_dns_within` looks at the base and at the entry without its leading dots; for a host it looks at the
whole name and at the entry with one of them. Against one entry the two differ in two ways only (`within_wildcard_iff`,
`within_host_iff`):
- an entry that is itself a child of the base contains that host, and not the wildcard;
- an entry with several leading dots contains the wildcard, and the hosts only if the base has as many.
`hosts_accepted_iff`: an accepted wildcard stands for accepted hosts exactly when no excluded entry is a child of its
base and, where there are permitted entries, one of them covers what is below the base.
-/
import Mathlib.Tactic
import Chancery.Scenarios.NameDecision

namespace Chancery.NameConstraints

open Chancery.Core
open San (Kind)

/-! ## Names and entries -/

/-- one label of a host name -/
def IsHostLabel (l : Text) : Prop := isAscii l = true ∧ l ≠ [] ∧ '.' ∉ l ∧ l ≠ ['*']

def wildcard (b : Text) : Text := '*' :: '.' :: b

def childOf (l b : Text) : Text := l ++ '.' :: b

/-- the entry is a child of the base, written without a leading dot -/
def ExcludesChild (uni : Unicode) (b e : Text) : Prop :=
  ∃ l, IsHostLabel l ∧ hostForm uni e = childOf (uni.lower l) (hostForm uni b)

/-- an entry with a dot in front, if it has none -/
def dotted (e : Text) : Text := if ['.'].isPrefixOf e then e else '.' :: e

/-- the entry contains everything below the base -/
def CoversBelow (uni : Unicode) (b e : Text) : Prop := dotted (hostForm uni e) <:+ '.' :: hostForm uni b

variable {uni : Unicode} {b l e : Text}

/-! ## Letter case -/

theorem lower_append {s t : Text} (hs : isAscii s = true) (ht : isAscii t = true) :
    uni.lower (s ++ t) = uni.lower s ++ uni.lower t := by
  have hst : isAscii (s ++ t) = true := by
    unfold isAscii at *
    rw [List.all_append, hs, ht]
    rfl
  rw [uni.lower_ascii _ hst, uni.lower_ascii _ hs, uni.lower_ascii _ ht, List.map_append]

/-- a base with a label has one in any letter case -/
theorem hostForm_ne_nil (hb : isAscii b = true) (hne : rstripDots b ≠ []) : hostForm uni b ≠ [] := by
  intro h
  refine hne ?_
  unfold hostForm at h
  rw [uni.lower_ascii b hb] at h
  unfold rstripDots at h ⊢
  rw [List.rdropWhile_eq_nil_iff] at h ⊢
  intro c hc
  have hlower := h c.toLower (List.mem_map_of_mem hc)
  simpa [toLower_eq_iff (show '.'.toNat < 65 by decide)] using hlower

/-- what stands in front of a base with a label keeps its dots -/
theorem hostForm_append {s : Text} (hs : isAscii s = true) (hb : isAscii b = true) (hne : rstripDots b ≠ []) :
    hostForm uni (s ++ b) = uni.lower s ++ hostForm uni b := by
  have hrest : rstripDots (uni.lower b) ≠ [] := hostForm_ne_nil hb hne
  unfold hostForm
  rw [lower_append hs hb, rstripDots_append hrest]

theorem hostForm_wildcard (hb : isAscii b = true) (hne : rstripDots b ≠ []) :
    hostForm uni (wildcard b) = '*' :: '.' :: hostForm uni b := by
  have h : hostForm uni (['*', '.'] ++ b) = uni.lower ['*', '.'] ++ hostForm uni b :=
    hostForm_append (by decide) hb hne
  rw [uni.lower_ascii _ (by decide)] at h
  exact h

theorem hostForm_childOf (hl : isAscii l = true) (hb : isAscii b = true) (hne : rstripDots b ≠ []) :
    hostForm uni (childOf l b) = childOf (uni.lower l) (hostForm uni b) := by
  have hdot : isAscii ['.'] = true := by decide
  have hfront : isAscii (l ++ ['.']) = true := by
    unfold isAscii at *
    rw [List.all_append, hl, hdot]
    rfl
  have h : hostForm uni (l ++ ['.'] ++ b) = uni.lower (l ++ ['.']) ++ hostForm uni b := hostForm_append hfront hb hne
  rw [lower_append hl hdot, uni.lower_ascii ['.'] hdot, List.append_assoc, List.append_assoc] at h
  exact h

theorem not_mem_lower (hl : IsHostLabel l) : '.' ∉ uni.lower l := by
  rw [uni.lower_ascii l hl.1]
  intro h
  obtain ⟨c, hc, hlower⟩ := List.mem_map.1 h
  rw [toLower_eq_iff (by decide)] at hlower
  exact hl.2.2.1 (hlower ▸ hc)

theorem lower_ne_nil (hl : IsHostLabel l) : uni.lower l ≠ [] := by
  rw [uni.lower_ascii l hl.1]
  simpa using hl.2.1

theorem lower_ne_star (hl : IsHostLabel l) : uni.lower l ≠ ['*'] := by
  rw [uni.lower_ascii l hl.1]
  intro h
  obtain ⟨c, hc, hlower⟩ := List.map_eq_singleton_iff.1 h
  rw [toLower_eq_iff (by decide)] at hlower
  exact hl.2.2.2 (by rw [hc, hlower])

/-! ## One entry -/

/-- a suffix that starts with a dot starts after a label without dots -/
theorem dot_suffix_append {r s t : Text} (hs : '.' ∉ s) : '.' :: r <:+ s ++ t ↔ '.' :: r <:+ t := by
  induction s with
  | nil => rfl
  | cons c s ih =>
    have hc : '.' ≠ c := fun h => hs (h ▸ List.mem_cons_self)
    have hrest : '.' ∉ s := fun h => hs (List.mem_cons_of_mem _ h)
    rw [List.cons_append, List.suffix_cons_iff, ih hrest]
    simp [hc]

/-- a host is no wildcard -/
theorem not_wildcard_childOf {s t : Text} (hdot : '.' ∉ s) (hne : s ≠ []) (hstar : s ≠ ['*']) :
    ['*', '.'].isPrefixOf (childOf s t) = false := by
  rcases s with _ | ⟨c, _ | ⟨d, s⟩⟩
  · exact absurd rfl hne
  · have hc : '*' ≠ c := fun h => hstar (by rw [h])
    simp [childOf, List.isPrefixOf, hc]
  · have hd : '.' ≠ d := fun h => hdot (h ▸ List.mem_cons_of_mem c List.mem_cons_self)
    simp [childOf, List.isPrefixOf, hd]

theorem dotted_eq (e : Text) : ∃ r, dotted e = '.' :: r := by
  unfold dotted
  split_ifs with h
  · cases e with
    | nil => cases h
    | cons c r =>
      have hc : '.' = c := by simpa [List.isPrefixOf] using h
      exact ⟨r, by rw [hc]⟩
  · exact ⟨e, rfl⟩

/-- an entry with its leading dots replaced by one -/
theorem lstripDots_suffix_dotted (e : Text) : '.' :: lstripDots e <:+ dotted e := by
  cases e with
  | nil => exact List.suffix_rfl
  | cons c r =>
    by_cases hc : c = '.'
    · -- the dots in front go, and the last of them comes back
      rw [hc]
      have hdrop : lstripDots ('.' :: r) = lstripDots r := by simp [lstripDots]
      rw [hdrop, show dotted ('.' :: r) = '.' :: r from rfl]
      clear hdrop
      induction r with
      | nil => exact List.suffix_rfl
      | cons d r ih =>
        by_cases hd : d = '.'
        · rw [hd, show lstripDots ('.' :: r) = lstripDots r by simp [lstripDots]]
          exact ih.trans (List.suffix_cons _ _)
        · rw [show lstripDots (d :: r) = d :: r by simp [lstripDots, hd]]
    · rw [show lstripDots (c :: r) = c :: r by simp [lstripDots, hc]]
      have hlead : ['.'].isPrefixOf (c :: r) = false := by simp [List.isPrefixOf, Ne.symm hc]
      unfold dotted
      rw [hlead]
      exact List.suffix_rfl

theorem within_wildcard_iff (hb : isAscii b = true) (hne : rstripDots b ≠ []) :
    dnsWithin uni (wildcard b) e = true ↔ '.' :: lstripDots (hostForm uni e) <:+ '.' :: hostForm uni b := by
  have hname : rstripDots (uni.lower (wildcard b)) = '*' :: '.' :: hostForm uni b := hostForm_wildcard hb hne
  have hbase : dnsWithin uni (wildcard b) e =
      (hostForm uni b == lstripDots (hostForm uni e) || endsWith (hostForm uni b)
        ('.' :: lstripDots (hostForm uni e))) := by
    unfold dnsWithin
    rw [hname]
    rfl
  rw [hbase, List.suffix_cons_iff, List.cons_inj_right, Bool.or_eq_true, beq_iff_eq, endsWith, List.isSuffixOf_iff_suffix]
  exact or_congr_left eq_comm

theorem within_host_iff (hl : IsHostLabel l) (hb : isAscii b = true) (hne : rstripDots b ≠ []) :
    dnsWithin uni (childOf l b) e = true ↔
      hostForm uni e = childOf (uni.lower l) (hostForm uni b) ∨ CoversBelow uni b e := by
  have hname : rstripDots (uni.lower (childOf l b)) = childOf (uni.lower l) (hostForm uni b) :=
    hostForm_childOf hl.1 hb hne
  have hdot : '.' ∉ uni.lower l := not_mem_lower hl
  have hplain : ['*', '.'].isPrefixOf (childOf (uni.lower l) (hostForm uni b)) = false :=
    not_wildcard_childOf hdot (lower_ne_nil hl) (lower_ne_star hl)
  have hhost : dnsWithin uni (childOf l b) e =
      if ['.'].isPrefixOf (hostForm uni e) then endsWith (childOf (uni.lower l) (hostForm uni b)) (hostForm uni e)
      else childOf (uni.lower l) (hostForm uni b) == hostForm uni e ||
        endsWith (childOf (uni.lower l) (hostForm uni b)) ('.' :: hostForm uni e) := by
    unfold dnsWithin
    simp only [hname, hplain, Bool.false_eq_true, if_false]
    rfl
  obtain ⟨r, hr⟩ := dotted_eq (hostForm uni e)
  have hsuffix : '.' :: r <:+ childOf (uni.lower l) (hostForm uni b) ↔ '.' :: r <:+ '.' :: hostForm uni b :=
    dot_suffix_append hdot
  unfold CoversBelow
  rw [hhost, hr, ← hsuffix, ← hr]
  by_cases hlead : ['.'].isPrefixOf (hostForm uni e) = true
  · -- a host does not start with a dot, so it is no entry that does
    have hne' : hostForm uni e ≠ childOf (uni.lower l) (hostForm uni b) := by
      intro h
      rw [h] at hlead
      cases hs : uni.lower l with
      | nil => exact lower_ne_nil hl hs
      | cons c s =>
        rw [hs] at hlead hdot
        have hc : '.' = c := by simpa [childOf, List.isPrefixOf] using hlead
        exact hdot (hc ▸ List.mem_cons_self)
    simp [hlead, dotted, endsWith, hne']
  · rw [if_neg hlead, Bool.or_eq_true, beq_iff_eq, endsWith, List.isSuffixOf_iff_suffix, dotted, if_neg hlead]
    exact or_congr_left eq_comm

/-! ## The whole record -/

/-- a host label longer than any entry -/
theorem exists_long_label (n : ℕ) : ∃ l, IsHostLabel l ∧ n < (uni.lower l).length := by
  refine ⟨'a' :: List.replicate n 'a', ⟨?_, by simp, by simp, ?_⟩, ?_⟩
  · simp [isAscii, isAsciiChar]
  · simp
  · rw [uni.lower_ascii]
    · simp
    · simp [isAscii, isAsciiChar]

theorem accepts_dns_iff {L : NameLib} {c : Option Constraints} {v : Text} :
    Accepts L c (.dns, v) ↔
      (∀ e ∈ entriesOf L.uni .dns Constraints.excluded c, dnsWithin L.uni v e = false) ∧
        (entriesOf L.uni .dns Constraints.permitted c = [] ∨
          ∃ e ∈ entriesOf L.uni .dns Constraints.permitted c, dnsWithin L.uni v e = true) := by
  rw [accepts_iff fun e => ⟨dnsWithin L.uni v e, rfl⟩]
  simp only [within, Ne, Except.ok.injEq, Bool.not_eq_true]

/-- **Wildcards and their hosts.** For every record and every wildcard it accepts, the hosts that the wildcard matches
are all accepted exactly when no excluded entry is a child of the base and, where there are permitted entries, one of
them covers everything below the base. -/
theorem hosts_accepted_iff (L : NameLib) (c : Option Constraints) (b : Text) (hb : isAscii b = true)
    (hne : rstripDots b ≠ []) (hacc : Accepts L c (.dns, wildcard b)) :
    (∀ l, IsHostLabel l → Accepts L c (.dns, childOf l b)) ↔
      (∀ e ∈ entriesOf L.uni .dns Constraints.excluded c, ¬ ExcludesChild L.uni b e) ∧
        (entriesOf L.uni .dns Constraints.permitted c = [] ∨
          ∃ e ∈ entriesOf L.uni .dns Constraints.permitted c, CoversBelow L.uni b e) := by
  obtain ⟨hexcl, -⟩ := accepts_dns_iff.1 hacc
  constructor
  · intro h
    constructor
    · rintro e he ⟨l, hl, hchild⟩
      have hout := (accepts_dns_iff.1 (h l hl)).1 e he
      rw [(within_host_iff hl hb hne).2 (.inl hchild)] at hout
      cases hout
    · by_cases hnone : entriesOf L.uni .dns Constraints.permitted c = []
      · exact .inl hnone
      · -- a label longer than every permitted entry: the host can only be inside an entry that covers the base
        obtain ⟨l, hl, hlong⟩ := @exists_long_label L.uni
          (((entriesOf L.uni .dns Constraints.permitted c).map fun e => (hostForm L.uni e).length).sum)
        obtain ⟨e, he, hin⟩ := (accepts_dns_iff.1 (h l hl)).2.resolve_left hnone
        refine .inr ⟨e, he, ((within_host_iff hl hb hne).1 hin).resolve_left fun heq => ?_⟩
        have hle : (hostForm L.uni e).length ≤
            ((entriesOf L.uni .dns Constraints.permitted c).map fun e => (hostForm L.uni e).length).sum :=
          List.le_sum_of_mem (List.mem_map_of_mem he)
        have hlen : (hostForm L.uni e).length = (L.uni.lower l).length + (hostForm L.uni b).length + 1 := by
          rw [heq, childOf, List.length_append, List.length_cons]
          omega
        omega
  · rintro ⟨hchild, hcover⟩ l hl
    rw [accepts_dns_iff]
    constructor
    · intro e he
      rw [Bool.eq_false_iff]
      intro hin
      rcases (within_host_iff hl hb hne).1 hin with heq | hcov
      · exact hchild e he ⟨l, hl, heq⟩
      · -- what covers the hosts contains the wildcard
        have hwild := (within_wildcard_iff hb hne).2 ((lstripDots_suffix_dotted (hostForm L.uni e)).trans hcov)
        rw [hexcl e he] at hwild
        cases hwild
    · exact hcover.imp_right fun ⟨e, he, hcov⟩ => ⟨e, he, (within_host_iff hl hb hne).2 (.inr hcov)⟩

/-! ## Examples -/

/-- a CA that may certify one domain except for one host of it -/
def exceptOneHost : Option Constraints := some ⟨["DNS:example.com".toList], ["DNS:secret.example.com".toList]⟩

/-- the theorem applies to a CA that may certify one domain: it accepts the wildcard and every host below -/
theorem hosts_accepted_iff_oneDomain :
    Accepts hostsOnly oneDomain (.dns, wildcard "example.com".toList) ∧
      ∀ l, IsHostLabel l → Accepts hostsOnly oneDomain (.dns, childOf l "example.com".toList) := by
  have hwildcard : Accepts hostsOnly oneDomain (.dns, wildcard "example.com".toList) := by
    unfold Accepts
    decide
  refine ⟨hwildcard, (hosts_accepted_iff hostsOnly oneDomain _ (by decide) (by decide) hwildcard).2
    ⟨fun e he => absurd he List.not_mem_nil, .inr ⟨"example.com".toList, List.mem_cons_self, ?_⟩⟩⟩
  unfold CoversBelow
  decide

/-- `*.example.com` is accepted, and `secret.example.com` is excluded -/
theorem wildcard_over_excluded_child :
    ¬ ∀ (lib : ConstraintLib) (c : Option Constraints), Producible lib c →
      ∀ b, isAscii b = true → rstripDots b ≠ [] → Accepts lib.names c (.dns, wildcard b) →
        ∀ l, IsHostLabel l → Accepts lib.names c (.dns, childOf l b) := by
  intro h
  have hprod : Producible hostsLib exceptOneHost :=
    .inl ⟨.lines ["DNS:example.com".toList], .lines ["DNS:secret.example.com".toList], by decide⟩
  have hacc := h hostsLib exceptOneHost hprod "example.com".toList (by decide) (by decide) (by unfold Accepts; decide)
    "secret".toList ⟨by decide, by decide, by decide, by decide⟩
  revert hacc
  unfold Accepts
  decide

end Chancery.NameConstraints
