/-
Do name constraints survive the way into a certificate, back, and through a second normalisation
(app/services/name_constraints.py).

(1) `Valued`: what `parse_entry` makes of the value of a line. A value that is `Sound` is read as itself (`valued_self`), is
encoded, and is read back from the certificate (`encoded`).
(2) `parseLines_sound`: a list of sound entries is its own normal form, and its own extension.
(3) `round_trips_iff`: what `normalise` accepts makes the round trip exactly when every line of the input `Survives`.
(4) `drifting_entries`: a domain with a line feed before a trailing dot, and a mailbox that is not ASCII.

What the standard library says about networks is `NetTexts`; lowering leaves no capital letter (`Lowers`).
-/
import Mathlib.Tactic
import Chancery.Services.NameConstraintEntries

namespace Chancery.NameConstraints.RoundTrip

open Chancery.Core
open San (Kind)

/-- **Network texts.** `str(network)` is read as the network. -/
def NetTexts (lib : ConstraintLib) : Prop :=
  ∀ t net, lib.names.ipNetwork t = some net → lib.names.ipNetwork (lib.netText net) = some net ∧
    '/' ∈ lib.netText net ∧ strip (lib.netText net) = lib.netText net

/-- `str.lower()` leaves no capital letter -/
def Lowers (uni : Unicode) : Prop := ∀ t, ∀ c ∈ uni.lower t, c.toLower = c

/-! ## (1) Values -/

/-- the kind and the value of a line -/
def entryOf (uni : Unicode) (line : Text) : Option (Kind × Text) :=
  let (head, sep, rest) := partition ':' (strip line)
  if sep then (kindOfPrefix uni head).map fun kind => (kind, strip rest) else none

/-- a value in lower case, a host without trailing dots -/
def lowered (uni : Unicode) : Kind → Text → Text
  | .dns, v | .uri, v => rstripDots (uni.lower v)
  | .email, v => uni.lower v
  | _, v => v

/-- **Sound.** A host that does not end in a line feed; a mailbox that is ASCII, and that the certificate library
accepts. -/
def Sound (lib : ConstraintLib) : Kind → Text → Prop
  | .dns, w | .uri, w => w.getLast? ≠ some '\n'
  | .email, w => isAscii w = true ∧ lib.names.emailOk w = true
  | _, _ => True

/-- **Survives.** The value of the line, lowered, is sound. -/
def Survives (lib : ConstraintLib) (line : Text) : Prop :=
  ∀ kind v, entryOf lib.names.uni line = some (kind, v) → Sound lib kind (lowered lib.names.uni kind v)

/-- the host of a mailbox -/
def hostOf (w : Text) : Text := if w.contains '@' then afterLast '@' w else w

/-- the value an accepted entry is given -/
def Valued (lib : ConstraintLib) : Kind → Text → Text → Prop
  | .dns, v, w => w = rstripDots (lib.names.uni.lower v) ∧ ['*'].isPrefixOf w = false ∧ matchesDomain w = true
  | .ip, v, w => '/' ∈ v ∧ ∃ net, lib.names.ipNetwork v = some net ∧ w = lib.netText net
  | .email, v, w => w = lib.names.uni.lower v ∧ matchesDomain (hostOf w) = true ∧ hostOf w ≠ []
  | .uri, v, w => w = rstripDots (lib.names.uni.lower v) ∧ ¬ ('/' ∈ w ∨ ':' ∈ w) ∧ matchesDomain w = true
  | .upn, _, _ => False

section Values

variable {lib : ConstraintLib} {kind : Kind} {v w : Text} {raw : String}

theorem parseValue_ok_iff : parseValue lib raw kind v = .ok w ↔ Valued lib kind v w := by
  cases kind with
  | dns =>
    simp only [parseValue, Valued]
    split_ifs with hstar hdomain
    · refine iff_of_false (fun h => nomatch h) ?_
      rintro ⟨rfl, hno, _⟩
      rw [hstar] at hno
      cases hno
    · refine iff_of_false (fun h => nomatch h) ?_
      rintro ⟨rfl, _, hyes⟩
      simp [hyes] at hdomain
    · rw [Except.ok.injEq]
      constructor
      · rintro rfl
        exact ⟨rfl, eq_false_of_ne_true hstar, by simpa using hdomain⟩
      · exact fun h => h.1.symm
  | ip =>
    simp only [parseValue, Valued]
    by_cases hslash : v.contains '/' = true
    · rw [if_neg (by simpa using hslash)]
      have hmem : '/' ∈ v := by simpa using hslash
      cases lib.names.ipNetwork v with
      | none => simp
      | some net => simp [hmem, eq_comm]
    · rw [if_pos (by simpa using hslash)]
      exact iff_of_false (fun h => nomatch h) fun h => hslash (by simpa using h.1)
  | email =>
    simp only [parseValue, Valued]
    change (if (!matchesDomain (hostOf (lib.names.uni.lower v)) || decide (hostOf (lib.names.uni.lower v) = [])) = true
      then _ else _) = _ ↔ _
    split_ifs with hhost
    · refine iff_of_false (fun h => nomatch h) ?_
      rintro ⟨rfl, hyes, hne⟩
      simp [hyes, hne] at hhost
    · rw [Except.ok.injEq]
      simp only [Bool.or_eq_true, Bool.not_eq_true', decide_eq_true_eq, not_or, Bool.not_eq_false] at hhost
      constructor
      · rintro rfl
        exact ⟨rfl, hhost.1, hhost.2⟩
      · exact fun h => h.1.symm
  | uri =>
    simp only [parseValue, Valued]
    split_ifs with hurl hdomain
    · refine iff_of_false (fun h => nomatch h) ?_
      rintro ⟨rfl, hno, _⟩
      simp [hno] at hurl
    · refine iff_of_false (fun h => nomatch h) ?_
      rintro ⟨rfl, _, hyes⟩
      simp [hyes] at hdomain
    · rw [Except.ok.injEq]
      constructor
      · rintro rfl
        exact ⟨rfl, by simpa using hurl, by simpa using hdomain⟩
      · exact fun h => h.1.symm
  | upn =>
    simp [parseValue, Valued]

/-! ### Domains -/

/-- a character of a domain -/
def isDomainChar (c : Char) : Bool := isAlnum c || c == '-' || c == '.'

theorem isDomainChar_cases {c : Char} (h : isDomainChar c = true) :
    isSpace c = false ∧ isAsciiChar c = true ∧ c ≠ '*' := by
  simp only [isDomainChar, isAlnum, Bool.or_eq_true, Bool.and_eq_true, decide_eq_true_eq, beq_iff_eq] at h
  have hnat : ∀ d : Char, c = d → c.toNat = d.toNat := fun d hd => hd ▸ rfl
  have hcode : c.toNat = 45 ∨ c.toNat = 46 ∨ 48 ≤ c.toNat ∧ c.toNat ≤ 57 ∨ 65 ≤ c.toNat ∧ c.toNat ≤ 90 ∨
      97 ≤ c.toNat ∧ c.toNat ≤ 122 := by
    rcases h with (((h | h) | h) | rfl) | rfl
    · omega
    · omega
    · omega
    · exact .inl rfl
    · exact .inr (.inl rfl)
  refine ⟨?_, ?_, ?_⟩
  · simp only [isSpace, Bool.or_eq_false_iff, Bool.and_eq_false_iff, decide_eq_false_iff_not, beq_eq_false_iff_ne]
    omega
  · simp only [isAsciiChar, decide_eq_true_eq]
    omega
  · rintro rfl
    revert hcode
    decide

/-- a domain ends in a character that is not a dot, and has no others than those of a domain -/
theorem domainBody_chars (h : domainBody w = true) :
    (∀ c ∈ w, isDomainChar c = true) ∧ ∃ c, w.getLast? = some c ∧ c ≠ '.' := by
  have hlabels : ∀ t : Text, (splitOn '.' t).all isLabel = true →
      (∀ c ∈ t, isDomainChar c = true) ∧ ∃ c, t.getLast? = some c ∧ c ≠ '.' := by
    intro t ht
    rw [List.all_eq_true] at ht
    constructor
    · intro c hc
      by_cases hdot : c = '.'
      · simp [isDomainChar, hdot]
      · obtain ⟨part, hpart, hmem⟩ := mem_splitOn hc hdot
        have hlabel := ht part hpart
        simp only [isLabel, Bool.and_eq_true, List.all_eq_true] at hlabel
        have hchar := hlabel.1.1.2 c hmem
        simp only [isDomainChar, hchar, Bool.true_or]
    · cases hlast : t.getLast? with
      | none =>
        rw [List.getLast?_eq_none_iff] at hlast
        have hempty := ht [] (by rw [hlast]; exact List.mem_singleton_self _)
        exact absurd hempty (by decide)
      | some c =>
        refine ⟨c, rfl, ?_⟩
        rintro rfl
        obtain ⟨part, parts, hsplit⟩ := splitOn_of_getLast? hlast
        have hempty := ht [] (by rw [hsplit]; simp)
        exact absurd hempty (by decide)
  unfold domainBody at h
  by_cases hdot : ['.'].isPrefixOf w = true
  · obtain ⟨rest, rfl⟩ := List.isPrefixOf_iff_prefix.1 hdot
    simp only [hdot, if_true] at h
    obtain ⟨hchars, c, hc, hne⟩ := hlabels rest h
    refine ⟨?_, c, ?_, hne⟩
    · intro d hd
      rcases List.mem_cons.1 hd with rfl | hd
      · decide
      · exact hchars d hd
    · rw [List.getLast?_append, hc]
      rfl
  · rw [if_neg hdot] at h
    exact hlabels w h

/-- what the pattern of domains matches -/
theorem matchesDomain_iff : matchesDomain w = true ↔ domainBody w = true ∨ ∃ u, domainBody u = true ∧ w = u ++ ['\n'] := by
  unfold matchesDomain
  rw [Bool.or_eq_true, Bool.and_eq_true, beq_iff_eq]
  refine or_congr_right ⟨?_, ?_⟩
  · rintro ⟨hlast, hbody⟩
    obtain ⟨u, rfl⟩ := List.getLast?_eq_some_iff.1 hlast
    rw [List.dropLast_concat] at hbody
    exact ⟨u, hbody, rfl⟩
  · rintro ⟨u, hbody, rfl⟩
    rw [List.getLast?_concat, List.dropLast_concat]
    exact ⟨rfl, hbody⟩

theorem bare_of_domainBody (h : domainBody w = true) : strip w = w ∧ w ≠ [] := by
  obtain ⟨hchars, c, hc, _⟩ := domainBody_chars h
  refine ⟨strip_eq_self (fun d hd => ?_) fun d hd => ?_, ?_⟩
  · exact (isDomainChar_cases (hchars d (List.mem_of_mem_head? hd))).1
  · exact (isDomainChar_cases (hchars d (List.mem_of_mem_getLast? hd))).1
  · rintro rfl
    cases hc

/-- stripping a matched domain leaves the domain -/
theorem strip_of_matchesDomain (h : matchesDomain w = true) : domainBody (strip w) = true := by
  rcases matchesDomain_iff.1 h with hbody | ⟨u, hbody, rfl⟩
  · rwa [(bare_of_domainBody hbody).1]
  · have hdrop : (u ++ ['\n']).rdropWhile isSpace = u.rdropWhile isSpace := List.rdropWhile_concat_pos _ _ _ (by decide)
    rw [← strip_rdropWhile, hdrop, strip_rdropWhile, (bare_of_domainBody hbody).1]
    exact hbody

theorem rstripDots_of_domainBody (h : domainBody w = true) : rstripDots w = w := by
  obtain ⟨_, c, hc, hne⟩ := domainBody_chars h
  obtain ⟨u, rfl⟩ := List.getLast?_eq_some_iff.1 hc
  exact List.rdropWhile_concat_neg _ _ _ (by simpa using hne)

theorem isAscii_of_matchesDomain (h : matchesDomain w = true) : isAscii w = true := by
  have hbody : ∀ u, domainBody u = true → isAscii u = true := by
    intro u hu
    exact List.all_eq_true.2 fun c hc => (isDomainChar_cases ((domainBody_chars hu).1 c hc)).2.1
  rcases matchesDomain_iff.1 h with hw | ⟨u, hu, rfl⟩
  · exact hbody w hw
  · unfold isAscii at hbody ⊢
    rw [List.all_append, hbody u hu]
    decide

/-! ### Sound values -/

/-- a first character that stands before the letters was there before lowering -/
theorem head?_lower (uni : Unicode) {t : Text} {d : Char} (hd : d.toNat < 65) (h : (uni.lower t).head? = some d) :
    t.head? = some d := by
  obtain ⟨pieces, hlower, hall⟩ := uni.lower_pieces t
  rw [hlower] at h
  cases hall with
  | nil => cases h
  | @cons c piece t pieces hc _ =>
    unfold Lowered at hc
    split_ifs at hc with hsmall
    · rw [hc] at h
      exact h
    · obtain ⟨e, rest, rfl⟩ := List.exists_cons_of_ne_nil hc.1
      have hbig := hc.2 e List.mem_cons_self
      cases h
      omega

/-- and a last one -/
theorem getLast?_lowered {t : Text} {pieces : List Text} (hall : List.Forall₂ Lowered t pieces) {d : Char}
    (hd : d.toNat < 65)
    (h : pieces.flatten.getLast? = some d) : t.getLast? = some d := by
  induction hall with
  | nil => cases h
  | @cons c piece t pieces hc hrest ih =>
    rw [List.flatten_cons, List.getLast?_append] at h
    cases hlast : pieces.flatten.getLast? with
    | some e =>
      rw [hlast] at h
      have ht := ih (hlast.trans h)
      rw [List.getLast?_cons, ht]
      rfl
    | none =>
      rw [hlast, Option.none_or] at h
      -- nothing comes after the first character
      have hnil : t = [] := by
        cases hrest with
        | nil => rfl
        | @cons e q t qs he _ =>
          rw [List.getLast?_eq_none_iff, List.flatten_cons, List.append_eq_nil_iff] at hlast
          unfold Lowered at he
          split_ifs at he
          · rw [he] at hlast
            cases hlast.1
          · exact absurd hlast.1 he.1
      unfold Lowered at hc
      split_ifs at hc with hsmall
      · rw [hc] at h
        rw [hnil]
        exact h
      · have hbig := hc.2 d (List.mem_of_getLast? h)
        omega

theorem getLast?_lower (uni : Unicode) {t : Text} {d : Char} (hd : d.toNat < 65) (h : (uni.lower t).getLast? = some d) :
    t.getLast? = some d := by
  obtain ⟨pieces, hlower, hall⟩ := uni.lower_pieces t
  rw [hlower] at h
  exact getLast?_lowered hall hd h

theorem lower_fixed {uni : Unicode} (hlower : Lowers uni) (hascii : isAscii w = true) {t : Text}
    (hsub : ∀ c ∈ w, c ∈ uni.lower t) : uni.lower w = w := by
  calc uni.lower w = w.map Char.toLower := uni.lower_ascii w hascii
    _ = w.map id := List.map_congr_left fun c hc => hlower t c (hsub c hc)
    _ = w := List.map_id w

theorem mem_of_mem_rstripDots {c : Char} {t : Text} (h : c ∈ rstripDots t) : c ∈ t := (List.rdropWhile_prefix _ _).mem h

/-- a host that does not end in a line feed is a domain -/
theorem domainBody_of_sound (h : matchesDomain w = true) (hlast : w.getLast? ≠ some '\n') : domainBody w = true := by
  rcases matchesDomain_iff.1 h with hbody | ⟨u, _, rfl⟩
  · exact hbody
  · exact absurd List.getLast?_concat hlast

/-- **A sound value is read as itself.** -/
theorem valued_self (hnet : NetTexts lib) (hlower : Lowers lib.names.uni) (hv : strip v = v) (h : Valued lib kind v w)
    (hsound : Sound lib kind w) : strip w = w ∧ w ≠ [] ∧ Valued lib kind w w := by
  -- a host is lowered to itself
  have hhost : matchesDomain w = true → w = rstripDots (lib.names.uni.lower v) → w.getLast? ≠ some '\n' →
      strip w = w ∧ w ≠ [] ∧ w = rstripDots (lib.names.uni.lower w) := by
    intro hmatch hw hlast
    have hbody := domainBody_of_sound hmatch hlast
    obtain ⟨hstrip, hne⟩ := bare_of_domainBody hbody
    have hfixed : lib.names.uni.lower w = w :=
      lower_fixed hlower (isAscii_of_matchesDomain hmatch) fun c hc => mem_of_mem_rstripDots (hw ▸ hc)
    exact ⟨hstrip, hne, by rw [hfixed, rstripDots_of_domainBody hbody]⟩
  cases kind with
  | dns =>
    obtain ⟨hw, hstar, hmatch⟩ := h
    obtain ⟨hstrip, hne, hself⟩ := hhost hmatch hw hsound
    exact ⟨hstrip, hne, hself, hstar, hmatch⟩
  | uri =>
    obtain ⟨hw, hurl, hmatch⟩ := h
    obtain ⟨hstrip, hne, hself⟩ := hhost hmatch hw hsound
    exact ⟨hstrip, hne, hself, hurl, hmatch⟩
  | ip =>
    obtain ⟨_, net, hread, rfl⟩ := h
    obtain ⟨hself, hslash, hstrip⟩ := hnet v net hread
    exact ⟨hstrip, List.ne_nil_of_mem hslash, hslash, net, hself, rfl⟩
  | email =>
    obtain ⟨hw, hmatch, hne⟩ := h
    have hfixed : lib.names.uni.lower w = w := lower_fixed hlower hsound.1 fun c hc => hw ▸ hc
    have hsmall : ∀ c ∈ w, isSpace c = true → c.toNat < 65 := by
      intro c hc hspace
      have hascii := List.all_eq_true.1 hsound.1 c hc
      simp only [isAsciiChar, decide_eq_true_eq] at hascii
      simp only [isSpace, Bool.or_eq_true, Bool.and_eq_true, decide_eq_true_eq, beq_iff_eq] at hspace
      omega
    refine ⟨strip_eq_self (fun c hc => ?_) fun c hc => ?_, ?_, hfixed.symm, hmatch, hne⟩
    · by_contra hspace
      rw [Bool.not_eq_false] at hspace
      have hhead : v.head? = some c :=
        head?_lower lib.names.uni (hsmall c (List.mem_of_mem_head? hc) hspace) (by rw [← hw]; exact hc)
      rw [← hv] at hhead
      rw [head?_strip hhead] at hspace
      cases hspace
    · by_contra hspace
      rw [Bool.not_eq_false] at hspace
      have hlast : v.getLast? = some c :=
        getLast?_lower lib.names.uni (hsmall c (List.mem_of_mem_getLast? hc) hspace) (by rw [← hw]; exact hc)
      rw [← hv] at hlast
      rw [getLast?_strip hlast] at hspace
      cases hspace
    · rintro rfl
      exact hne rfl
  | upn => exact h.elim

/-- **A sound value is encoded, and read back from the certificate.** -/
theorem encoded (hlower : Lowers lib.names.uni) (h : Valued lib kind w w) (hsound : Sound lib kind w) :
    ∃ g, generalName lib kind.text w = .ok (some g) ∧ toEntry lib g = kind.label ++ ':' :: w ∧ g.isWildcard = false := by
  cases kind with
  | dns =>
    obtain ⟨hw, _, hmatch⟩ := h
    have hascii := isAscii_of_matchesDomain hmatch
    have hfixed := lower_fixed hlower hascii fun c hc => mem_of_mem_rstripDots (hw ▸ hc)
    have hstar : '*' ∉ w := fun hin =>
      (isDomainChar_cases ((domainBody_chars (domainBody_of_sound hmatch hsound)).1 '*' hin)).2.2 rfl
    refine ⟨.dns w, ?_, ?_, ?_⟩
    · rw [generalName, if_pos rfl, if_pos hascii]
    · show "DNS:".toList ++ lib.names.uni.lower w = _
      rw [hfixed]
      rfl
    · show w.contains '*' = false
      simpa using hstar
  | ip =>
    obtain ⟨_, net, hread, hw⟩ := h
    refine ⟨.ip net, ?_, ?_, rfl⟩
    · rw [generalName, if_neg (by decide), if_pos rfl, hread]
    · show "IP:".toList ++ lib.netText net = _
      rw [← hw]
      rfl
  | email =>
    have hfixed := lower_fixed hlower hsound.1 fun c hc => h.1 ▸ hc
    refine ⟨.email w, ?_, ?_, rfl⟩
    · rw [generalName, if_neg (by decide), if_neg (by decide), if_pos rfl, if_pos (by rw [hsound.1, hsound.2]; rfl)]
    · show "EMAIL:".toList ++ lib.names.uni.lower w = _
      rw [hfixed]
      rfl
  | uri =>
    obtain ⟨hw, _, hmatch⟩ := h
    have hascii := isAscii_of_matchesDomain hmatch
    have hfixed := lower_fixed hlower hascii fun c hc => mem_of_mem_rstripDots (hw ▸ hc)
    refine ⟨.uri w, ?_, ?_, rfl⟩
    · rw [generalName, if_neg (by decide), if_neg (by decide), if_neg (by decide), if_pos rfl, if_pos hascii]
    · show "URI:".toList ++ lib.names.uni.lower w = _
      rw [hfixed]
      rfl
  | upn => exact h.elim

/-- a mailbox that is encoded is sound -/
theorem sound_of_generalName {name : Option ConstraintName} (h : generalName lib Kind.email.text w = .ok name) :
    Sound lib .email w := by
  rw [generalName, if_neg (by decide), if_neg (by decide), if_pos rfl] at h
  split_ifs at h with hok
  exact Bool.and_eq_true_iff.1 hok

end Values

/-! ## (2) Lists of entries -/

/-- the text of an entry -/
def entryText (kind : Kind) (w : Text) : Text := kind.label ++ ':' :: w

section Lists

variable {lib : ConstraintLib} {kind kind' : Kind} {v w w' s line : Text} {lines out res : List Text}

theorem entryText_injective (h : entryText kind w = entryText kind' w') : kind = kind' ∧ w = w' := by
  have hparts := congrArg (partition ':') h
  rw [entryText, entryText, kind.partition_label, kind'.partition_label, Prod.mk.injEq, Prod.mk.injEq] at hparts
  refine ⟨?_, hparts.2.2⟩
  have hlabel := hparts.1
  cases kind <;> cases kind' <;> first | rfl | exact absurd hlabel (by decide)

theorem splitEntry_entryText (uni : Unicode) : splitEntry uni (entryText kind w) = (kind.text, w) := by
  have hlower : uni.lower kind.label = kind.text := by
    rw [uni.lower_ascii _ (by cases kind <;> decide)]
    cases kind <;> decide
  rw [splitEntry, entryText, kind.partition_label]
  exact congrArg (·, w) hlower

theorem entryOf_entryText (uni : Unicode) (hkind : kind ≠ .upn) :
    entryOf uni (entryText kind w) = some (kind, strip w) := by
  have hkindOf : kindOfPrefix uni kind.label = some kind := by
    unfold kindOfPrefix
    rw [kind.upper_label]
    cases kind with
    | upn => exact absurd rfl hkind
    | _ => decide
  unfold entryOf entryText
  rw [kind.strip_label, kind.partition_label]
  simp only [hkindOf, if_true, Option.map_some, strip_rdropWhile]

theorem entryOf_bare (h : entryOf lib.names.uni line = some (kind, v)) : strip v = v := by
  unfold entryOf at h
  simp only at h
  split_ifs at h
  obtain ⟨k, _, hk⟩ := Option.map_eq_some_iff.1 h
  rw [← (Prod.mk.inj hk).2]
  exact strip_strip _

/-- what a line is read as -/
theorem parseLine_some_iff : parseLine lib line = .ok (some (kind, w)) ↔
    ∃ v, entryOf lib.names.uni line = some (kind, v) ∧ v ≠ [] ∧ Valued lib kind v w := by
  unfold parseLine entryOf
  by_cases hblank : strip line = []
  · rw [if_pos hblank, hblank]
    exact iff_of_false (fun h => nomatch h) fun ⟨_, h, _⟩ => nomatch h
  rw [if_neg hblank]
  simp only
  by_cases hsep : (partition ':' (strip line)).2.1 = true
  · rw [if_pos hsep, if_pos hsep]
    cases kindOfPrefix lib.names.uni (partition ':' (strip line)).1 with
    | none => exact iff_of_false (fun h => nomatch h) fun ⟨_, h, _⟩ => nomatch h
    | some k =>
      simp only [Option.map_some, Option.some.injEq, Prod.mk.injEq]
      split_ifs with hempty
      · refine iff_of_false (fun h => nomatch h) ?_
        rintro ⟨v, ⟨_, rfl⟩, hne, _⟩
        exact hne hempty
      · constructor
        · intro h
          cases hvalue : parseValue lib (String.ofList (strip line)) k (strip (partition ':' (strip line)).2.2) with
          | error e =>
            rw [hvalue] at h
            cases h
          | ok x =>
            rw [hvalue] at h
            cases h
            exact ⟨_, ⟨rfl, rfl⟩, hempty, parseValue_ok_iff.1 hvalue⟩
        · rintro ⟨v, ⟨rfl, rfl⟩, _, hvalued⟩
          rw [parseValue_ok_iff.2 hvalued]
          rfl
  · rw [if_neg hsep, if_neg hsep]
    exact iff_of_false (fun h => nomatch h) fun ⟨_, h, _⟩ => nomatch h

/-- a blank line has no kind -/
theorem entryOf_of_parseLine (h : parseLine lib line = .ok none) : entryOf lib.names.uni line = none := by
  unfold parseLine at h
  by_cases hblank : strip line = []
  · unfold entryOf
    rw [hblank]
    rfl
  · rw [if_neg hblank] at h
    simp only at h
    split at h
    · cases h
    · rename_i k _
      split_ifs at h
      cases hvalue : parseValue lib (String.ofList (strip line)) k (strip (partition ':' (strip line)).2.2) with
      | error e =>
        rw [hvalue] at h
        cases h
      | ok x =>
        rw [hvalue] at h
        cases h

/-- the entries of a list of lines: each of one of them, none twice -/
theorem parseLines_ok (h : parseLines lib out lines = .ok res) : (out.Nodup → res.Nodup) ∧
    (∀ line ∈ lines, ∃ parsed, parseLine lib line = .ok parsed) ∧
    ∀ s, s ∈ res ↔ s ∈ out ∨ ∃ line ∈ lines, ∃ kind w, parseLine lib line = .ok (some (kind, w)) ∧ s =
      entryText kind w := by
  induction lines generalizing out with
  | nil =>
    cases h
    simp
  | cons line lines ih =>
    rw [parseLines] at h
    cases hline : parseLine lib line with
    | error e =>
      rw [hline] at h
      cases h
    | ok parsed =>
      rw [hline] at h
      cases parsed with
      | none =>
        obtain ⟨hnodup, hparsed, hmem⟩ := ih h
        refine ⟨hnodup, ?_, fun s => ?_⟩
        · exact List.forall_mem_cons.2 ⟨⟨none, hline⟩, hparsed⟩
        · rw [hmem s]
          simp [hline]
      | some pair =>
        obtain ⟨kind, w⟩ := pair
        obtain ⟨hnodup, hparsed, hmem⟩ := ih h
        refine ⟨fun hout => hnodup ?_, ?_, fun s => ?_⟩
        · split_ifs with hin
          · exact hout
          · exact List.nodup_append.2 ⟨hout, List.nodup_singleton _, fun a ha b hb heq =>
              hin (by rw [← List.mem_singleton.1 hb, ← heq]; exact ha)⟩
        · exact List.forall_mem_cons.2 ⟨⟨some (kind, w), hline⟩, hparsed⟩
        · rw [hmem s]
          have hout : s ∈ (if entryText kind w ∈ out then out else out ++ [entryText kind w]) ↔
              s ∈ out ∨ s = entryText kind w := by
            split_ifs with hin
            · exact ⟨.inl, fun h => h.elim id fun heq => heq ▸ hin⟩
            · rw [List.mem_append, List.mem_singleton]
          simp only [List.mem_cons, exists_eq_or_imp, hline, Except.ok.injEq, Option.some.injEq, Prod.mk.injEq]
          rw [← or_assoc]
          refine or_congr_left (hout.trans (or_congr_right ⟨?_, ?_⟩))
          · rintro rfl
            exact ⟨kind, w, ⟨rfl, rfl⟩, rfl⟩
          · rintro ⟨_, _, ⟨rfl, rfl⟩, rfl⟩
            rfl

/-- entries that are read as themselves are their own normal form -/
theorem parseLines_self (hself : ∀ s ∈ lines, ∃ kind w, s = entryText kind w ∧ parseLine lib s = .ok (some (kind, w)))
    (hnodup : (out ++ lines).Nodup) : parseLines lib out lines = .ok (out ++ lines) := by
  induction lines generalizing out with
  | nil => rw [parseLines, List.append_nil]
  | cons s lines ih =>
    obtain ⟨kind, w, rfl, hline⟩ := hself s List.mem_cons_self
    have hnew : entryText kind w ∉ out := fun hin =>
      (List.nodup_append.1 hnodup).2.2 _ hin _ List.mem_cons_self rfl
    rw [parseLines, hline]
    simp only
    rw [show kind.label ++ ':' :: w = entryText kind w from rfl, if_neg hnew]
    have happend : out ++ entryText kind w :: lines = out ++ [entryText kind w] ++ lines := List.append_cons _ _ _
    rw [happend] at hnodup ⊢
    exact ih (fun x hx => hself x (List.mem_cons_of_mem _ hx)) hnodup

/-- entries that are encoded and read back one by one make a side of the extension -/
theorem subtree_self (hself : ∀ s ∈ lines, ∃ kind w g, s = entryText kind w ∧ generalName lib kind.text w = .ok (some g) ∧
      toEntry lib g = s ∧ g.isWildcard = false) :
    ∃ names, subtree lib lines = .ok names ∧ names.map (toEntry lib) = lines ∧ ∀ g ∈ names, g.isWildcard = false := by
  induction lines with
  | nil => exact ⟨[], rfl, rfl, fun _ hg => absurd hg List.not_mem_nil⟩
  | cons s lines ih =>
    obtain ⟨kind, w, g, rfl, hg, hback, hwild⟩ := hself s List.mem_cons_self
    obtain ⟨names, hnames, hmap, hall⟩ := ih fun x hx => hself x (List.mem_cons_of_mem _ hx)
    refine ⟨g :: names, ?_, ?_, List.forall_mem_cons.2 ⟨hwild, hall⟩⟩
    · rw [subtree, splitEntry_entryText, hg, hnames]
      rfl
    · rw [List.map_cons, hback, hmap]

/-- every entry of a side that is built is encoded -/
theorem subtree_ok {names : List ConstraintName} (h : subtree lib lines = .ok names) (hs : entryText kind w ∈ lines) :
    ∃ name, generalName lib kind.text w = .ok name := by
  induction lines generalizing names with
  | nil => cases hs
  | cons s lines ih =>
    rw [subtree] at h
    obtain ⟨name, hname, h⟩ := bind_eq_ok.1 h
    obtain ⟨rest, hrest, _⟩ := bind_eq_ok.1 h
    rcases List.mem_cons.1 hs with rfl | hs
    · rw [splitEntry_entryText] at hname
      exact ⟨name, hname⟩
    · exact ih hrest hs

end Lists

/-! ## (3) The round trip -/

/-- **The round trip.** The extension is built, is read as the record, and the entries of the record are their own normal
form. -/
def RoundTrips (lib : ConstraintLib) (d : Option Constraints) : Prop :=
  ∃ ext, buildExtension lib d = .ok ext ∧ fromCertificate lib ext = d ∧
    normalise lib (.lines (d.elim [] (·.permitted))) (.lines (d.elim [] (·.excluded))) = .ok d

section Trip

variable {lib : ConstraintLib} {kind : Kind} {v w s line : Text} {lines p e res : List Text} {d : Option Constraints}

/-- what `parse_entries` writes for a line -/
theorem sound_iff (h : Valued lib kind v w) : Sound lib kind (lowered lib.names.uni kind v) ↔ Sound lib kind w := by
  cases kind with
  | dns => rw [h.1]; rfl
  | email => rw [h.1]; rfl
  | uri => rw [h.1]; rfl
  | ip => rfl
  | upn => exact h.elim

/-- the entry of a line, with how it was made -/
theorem entry_of_mem (h : parseLines lib [] lines = .ok res) (hs : s ∈ res) : ∃ line ∈ lines, ∃ kind v w,
    entryOf lib.names.uni line = some (kind, v) ∧ s = entryText kind w ∧ strip v = v ∧ Valued lib kind v w := by
  obtain ⟨line, hline, kind, w, hparse, rfl⟩ := (((parseLines_ok h).2.2 s).1 hs).resolve_left List.not_mem_nil
  obtain ⟨v, hentry, _, hvalued⟩ := parseLine_some_iff.1 hparse
  exact ⟨line, hline, kind, v, w, hentry, rfl, entryOf_bare hentry, hvalued⟩

/-- the line of an entry -/
theorem mem_of_entry (h : parseLines lib [] lines = .ok res) (hline : line ∈ lines)
    (hentry : entryOf lib.names.uni line = some (kind, v)) : ∃ w, Valued lib kind v w ∧ entryText kind w ∈ res := by
  obtain ⟨_, hparsed, hmem⟩ := parseLines_ok h
  obtain ⟨parsed, hparse⟩ := hparsed line hline
  cases parsed with
  | none =>
    rw [entryOf_of_parseLine hparse] at hentry
    cases hentry
  | some pair =>
    obtain ⟨kind', w⟩ := pair
    obtain ⟨v', hentry', _, hvalued⟩ := parseLine_some_iff.1 hparse
    rw [hentry, Option.some.injEq, Prod.mk.injEq] at hentry'
    obtain ⟨rfl, rfl⟩ := hentry'
    exact ⟨w, hvalued, (hmem _).2 (.inr ⟨line, hline, kind, w, hparse, rfl⟩)⟩

/-- a side whose lines survive is its own normal form, and its own extension -/
theorem side_survives (hnet : NetTexts lib) (hlower : Lowers lib.names.uni) (h : parseLines lib [] lines = .ok res)
    (hall : ∀ line ∈ lines, Survives lib line) : parseLines lib [] res = .ok res ∧
      ∃ names, subtree lib res = .ok names ∧ names.map (toEntry lib) = res ∧ ∀ g ∈ names, g.isWildcard = false := by
  have hentry : ∀ s ∈ res, ∃ kind w, s = entryText kind w ∧ strip w = w ∧ w ≠ [] ∧ Valued lib kind w w ∧
    Sound lib kind w := by
    intro s hs
    obtain ⟨line, hline, kind, v, w, hof, rfl, hv, hvalued⟩ := entry_of_mem h hs
    have hsound := (sound_iff hvalued).1 (hall line hline kind v hof)
    obtain ⟨hstrip, hne, hself⟩ := valued_self hnet hlower hv hvalued hsound
    exact ⟨kind, w, rfl, hstrip, hne, hself, hsound⟩
  constructor
  · have hnodup := (parseLines_ok h).1 List.nodup_nil
    refine parseLines_self (fun s hs => ?_) hnodup
    obtain ⟨kind, w, rfl, hstrip, hne, hself, _⟩ := hentry s hs
    have hkind : kind ≠ .upn := by
      rintro rfl
      exact hself
    refine ⟨kind, w, rfl, parseLine_some_iff.2 ⟨w, ?_, hne, hself⟩⟩
    rw [entryOf_entryText _ hkind, hstrip]
  · refine subtree_self fun s hs => ?_
    obtain ⟨kind, w, rfl, _, _, hself, hsound⟩ := hentry s hs
    obtain ⟨g, hg, hback, hwild⟩ := encoded hlower hself hsound
    exact ⟨kind, w, g, rfl, hg, hback, hwild⟩

/-- a side that is built, and is its own normal form, comes from lines that survive -/
theorem survives_of_side {names : List ConstraintName} (hlower : Lowers lib.names.uni)
    (h : parseLines lib [] lines = .ok res)
    (hself : parseLines lib [] res = .ok res) (hbuilt : subtree lib res = .ok names) : ∀ line ∈ lines,
      Survives lib line := by
  intro line hline kind v hof
  obtain ⟨w, hvalued, hs⟩ := mem_of_entry h hline hof
  rw [sound_iff hvalued]
  -- a host in the normal form of entries does not end in a line feed
  have hhost : (∀ u x, Valued lib kind u x → x = rstripDots (lib.names.uni.lower u) ∧ matchesDomain x = true) →
      w.getLast? ≠ some '\n' := by
    intro hform hlast
    obtain ⟨t, ht, kind', u, w', hof', hsame, _, hvalued'⟩ := entry_of_mem hself hs
    obtain ⟨rfl, rfl⟩ := entryText_injective hsame
    obtain ⟨_, _, kind₀, u₀, w₀, _, rfl, _, hvalued₀⟩ := entry_of_mem h ht
    have hkind₀ : kind₀ ≠ .upn := by
      rintro rfl
      exact hvalued₀
    rw [entryOf_entryText _ hkind₀, Option.some.injEq, Prod.mk.injEq] at hof'
    obtain ⟨rfl, rfl⟩ := hof'
    obtain ⟨hw₀, hmatch₀⟩ := hform u₀ w₀ hvalued₀
    obtain ⟨hw, _⟩ := hform (strip w₀) w hvalued'
    have hbody := strip_of_matchesDomain hmatch₀
    have hascii : isAscii (strip w₀) = true := isAscii_of_matchesDomain (matchesDomain_iff.2 (.inl hbody))
    have hfixed : lib.names.uni.lower (strip w₀) = strip w₀ :=
      lower_fixed hlower hascii fun c hc => mem_of_mem_rstripDots (hw₀ ▸ mem_of_mem_strip hc)
    rw [hfixed, rstripDots_of_domainBody hbody] at hw
    rw [hw] at hlast
    have hchar := (domainBody_chars hbody).1 _ (List.mem_of_getLast? hlast)
    exact absurd hchar (by decide)
  cases kind with
  | dns => exact hhost fun u x h => ⟨h.1, h.2.2⟩
  | uri => exact hhost fun u x h => ⟨h.1, h.2.2⟩
  | email =>
    obtain ⟨name, hname⟩ := subtree_ok hbuilt hs
    exact sound_of_generalName hname
  | ip => trivial
  | upn => trivial

theorem normalise_ok {permitted excluded : EntryInput} (h : normalise lib permitted excluded = .ok d) :
    ∃ p e, parseLines lib [] permitted.toLines = .ok p ∧ parseLines lib [] excluded.toLines = .ok e ∧
      d = if p = [] ∧ e = [] then none else some ⟨p, e⟩ := by
  obtain ⟨p, hp, h⟩ := bind_eq_ok.1 h
  obtain ⟨e, he, h⟩ := bind_eq_ok.1 h
  refine ⟨p, e, hp, he, ?_⟩
  split_ifs at h ⊢ with hempty
  · exact (Except.ok.inj h).symm
  · exact (Except.ok.inj h).symm

theorem sides_of_record : ((if p = [] ∧ e = [] then none else some ⟨p, e⟩ : Option Constraints).elim [] (·.permitted)) = p ∧
    ((if p = [] ∧ e = [] then none else some ⟨p, e⟩ : Option Constraints).elim [] (·.excluded)) = e := by
  split_ifs with hempty
  · exact ⟨hempty.1.symm, hempty.2.symm⟩
  · exact ⟨rfl, rfl⟩

theorem someNames_getD (names : List ConstraintName) : (someNames names).getD [] = names := by
  unfold someNames
  split_ifs with hnil
  · exact hnil.symm
  · rfl

/-- **Name constraints.** A record that `normalise` accepts makes the round trip when every line survives. -/
theorem round_trips_iff (hnet : NetTexts lib) (hlower : Lowers lib.names.uni) {permitted excluded : EntryInput}
    (h : normalise lib permitted excluded = .ok d) :
    RoundTrips lib d ↔ ∀ line ∈ permitted.toLines ++ excluded.toLines, Survives lib line := by
  obtain ⟨p, e, hp, he, rfl⟩ := normalise_ok h
  obtain ⟨hsideP, hsideE⟩ := @sides_of_record p e
  rw [RoundTrips, hsideP, hsideE]
  constructor
  · rintro ⟨ext, hbuild, _, hnormal⟩
    obtain ⟨p', e', hp', he', hrecord⟩ := normalise_ok hnormal
    have hsame : p' = p ∧ e' = e := by
      have hpermitted := congrArg (Option.elim · [] Constraints.permitted) hrecord
      have hexcluded := congrArg (Option.elim · [] Constraints.excluded) hrecord
      simp only [sides_of_record.1, sides_of_record.2] at hpermitted hexcluded
      exact ⟨hpermitted.symm, hexcluded.symm⟩
    obtain ⟨rfl, rfl⟩ := hsame
    have hbuilt : ∃ ps es, subtree lib p' = .ok ps ∧ subtree lib e' = .ok es := by
      by_cases hempty : p' = [] ∧ e' = []
      · rw [hempty.1, hempty.2]
        exact ⟨[], [], rfl, rfl⟩
      · rw [if_neg hempty] at hbuild
        obtain ⟨ps, hps, hbuild⟩ := bind_eq_ok.1 hbuild
        obtain ⟨es, hes, _⟩ := bind_eq_ok.1 hbuild
        exact ⟨ps, es, hps, hes⟩
    obtain ⟨ps, es, hps, hes⟩ := hbuilt
    intro line hline
    rcases List.mem_append.1 hline with hin | hin
    · exact survives_of_side hlower hp hp' hps line hin
    · exact survives_of_side hlower he he' hes line hin
  · intro hall
    obtain ⟨hselfP, ps, hps, hmapP, hwildP⟩ :=
      side_survives hnet hlower hp fun line hin => hall line (List.mem_append_left _ hin)
    obtain ⟨hselfE, es, hes, hmapE, hwildE⟩ :=
      side_survives hnet hlower he fun line hin => hall line (List.mem_append_right _ hin)
    have hnormal : normalise lib (.lines p) (.lines e) = .ok (if p = [] ∧ e = [] then none else some ⟨p, e⟩) := by
      show (parseLines lib [] p >>= fun p => parseLines lib [] e >>= fun e => _) = _
      rw [hselfP, hselfE]
      show (if p = [] ∧ e = [] then Except.ok none else Except.ok (some (Constraints.mk p e))) = _
      split_ifs <;> rfl
    by_cases hempty : p = [] ∧ e = []
    · refine ⟨none, ?_, ?_, hnormal⟩
      · rw [if_pos hempty]
        rfl
      · rw [if_pos hempty]
        rfl
    · rw [if_neg hempty] at hnormal ⊢
      have hnames : ¬(ps = [] ∧ es = []) := by
        rintro ⟨rfl, rfl⟩
        exact hempty ⟨hmapP.symm, hmapE.symm⟩
      have hwild : ¬(ps ++ es).any (·.isWildcard) = true := by
        rw [List.any_eq_true]
        rintro ⟨g, hg, hw⟩
        rcases List.mem_append.1 hg with hg | hg
        · rw [hwildP g hg] at hw
          cases hw
        · rw [hwildE g hg] at hw
          cases hw
      refine ⟨some ⟨someNames ps, someNames es⟩, ?_, ?_, hnormal⟩
      · show (subtree lib p >>= fun ps => subtree lib e >>= fun es => _) = _
        rw [hps, hes]
        show (if ps = [] ∧ es = [] then _ else if (ps ++ es).any (·.isWildcard) = true then _ else _) = _
        rw [if_neg hnames, if_neg hwild]
      · show some (Constraints.mk _ _) = _
        rw [someNames_getD, someNames_getD, hmapP, hmapE]

end Trip

/-! ## (4) Entries that drift -/

/-- 10.0.0.0/8 is the only network -/
def tripLib : ConstraintLib where
  names := ⟨Unicode.ascii, fun _ => none,
    fun t => if t = "10.0.0.0/8".toList then some ⟨4, 167772160, 4278190080⟩ else none,
    fun _ => [], fun v => .ok v, fun _ => true, fun _ _ => true⟩
  netText _ := "10.0.0.0/8".toList
  netError _ := ""

theorem tripLib_netTexts : NetTexts tripLib := by
  intro t net h
  have hnet : tripLib.names.ipNetwork t = if t = "10.0.0.0/8".toList then some ⟨4, 167772160, 4278190080⟩ else none := rfl
  rw [hnet] at h
  split_ifs at h
  cases h
  exact ⟨rfl, by decide, by decide⟩

theorem lowers_ascii : Lowers .ascii := by
  intro t c hc
  obtain ⟨d, _, rfl⟩ := List.mem_map.1 hc
  by_cases hupper : 65 ≤ d.toNat ∧ d.toNat ≤ 90
  · have hge := toNat_toLower hupper
    exact dif_neg fun h => absurd h.2 (by show ¬d.toLower.toNat ≤ 90; omega)
  · have hsame : d.toLower = d := dif_neg hupper
    rw [hsame, hsame]

/-- a domain, a network and a mailbox -/
def plainLines : List Text := ["dns: Example.COM.".toList, "IP:10.0.0.0/8".toList, "EMAIL:Admin@example.com".toList]

theorem round_trips_sample : RoundTrips tripLib
    (some ⟨["DNS:example.com".toList, "IP:10.0.0.0/8".toList, "EMAIL:admin@example.com".toList], []⟩) := by
  refine (@round_trips_iff tripLib _ tripLib_netTexts lowers_ascii (.lines plainLines) (.lines []) ?_).2 ?_
  · rfl
  · have hsurvives : ∀ (line : Text) (kind : Kind) (v : Text), entryOf .ascii line = some (kind, v) →
        Sound tripLib kind (lowered .ascii kind v) → Survives tripLib line := by
      intro line kind v hof hsound kind' v' hof'
      cases hof.symm.trans hof'
      exact hsound
    have hdomain : Survives tripLib "dns: Example.COM.".toList :=
      hsurvives _ .dns "Example.COM.".toList (by decide) (by show _ ≠ _; decide)
    have hnetwork : Survives tripLib "IP:10.0.0.0/8".toList :=
      hsurvives _ .ip "10.0.0.0/8".toList (by decide) trivial
    have hmailbox : Survives tripLib "EMAIL:Admin@example.com".toList :=
      hsurvives _ .email "Admin@example.com".toList (by decide) ⟨by decide, rfl⟩
    exact List.forall_mem_cons.2 ⟨hdomain, List.forall_mem_cons.2 ⟨hnetwork, List.forall_mem_singleton.2 hmailbox⟩⟩

/-- **(4)** Both are accepted. The line feed is stripped when the entry is read again; the mailbox is not encoded at all. -/
theorem drifting_entries :
    normalise tripLib (.lines ["DNS:example.com\n.".toList]) (.lines []) = .ok (some ⟨["DNS:example.com\n".toList], []⟩) ∧
      ¬RoundTrips tripLib (some ⟨["DNS:example.com\n".toList], []⟩) ∧
      normalise tripLib (.lines ["EMAIL:ü@example.com".toList]) (.lines []) =
        .ok (some ⟨["EMAIL:ü@example.com".toList], []⟩) ∧
      ¬RoundTrips tripLib (some ⟨["EMAIL:ü@example.com".toList], []⟩) := by
  refine ⟨rfl, ?_, rfl, ?_⟩
  · rintro ⟨ext, _, _, hnormal⟩
    have hagain : (normalise tripLib (.lines ["DNS:example.com\n".toList]) (.lines [])).toOption =
        some (some ⟨["DNS:example.com".toList], []⟩) := by decide +kernel
    simp only [Option.elim_some] at hnormal
    rw [hnormal] at hagain
    exact absurd hagain (by decide)
  · rintro ⟨ext, hbuild, _⟩
    have hrefused : (buildExtension tripLib (some ⟨["EMAIL:ü@example.com".toList], []⟩)).toOption =
      none := by decide +kernel
    rw [hbuild] at hrefused
    cases hrefused

end Chancery.NameConstraints.RoundTrip
