/-
An ACME order names host names only, as far as the pattern that checks them goes.

`order_names_hosts`: after any run, a new order either raises an AcmeProblem and leaves everything as it was, or it is
stored with distinct identifiers, one authorization for each. All of them are host names (`HostName`, one after `*.` only
where the CA allows wildcards and dns-01 is offered) if and only if every value of the request is plain (`PlainValue`).

Witnesses that both halves of `PlainValue` are needed (`odd_names_accepted`):
- the final `$` of the pattern also matches before a line feed, and `rstrip(".")` comes after `strip()`, so a line feed
  before trailing dots is stored;
- `(?!-)` looks at the start of the name only, so later labels may start with a hyphen.
-/
import Mathlib.Tactic
import Chancery.Scenarios.AcmeControl

namespace Chancery.Acme

open Chancery.Core CertificateNames ControlOfNames

namespace HostNames

variable {E : Env}

/-! ## Host names -/

/-- a label: letters, digits and hyphens, no hyphen at either end -/
structure HostLabel (t : Text) : Prop where
  length : 1 ≤ t.length ∧ t.length ≤ 63
  chars : ∀ c ∈ t, isLowerAlnum c = true ∨ c = '-'
  first : t.head? ≠ some '-'
  last : t.getLast? ≠ some '-'

/-- an IPv4 address in its dotted form -/
def DottedQuad (t : Text) : Prop :=
  (splitOn '.' t).length = 4 ∧ ∀ part ∈ splitOn '.' t, part ≠ [] ∧ ∀ c ∈ part, 48 ≤ c.toNat ∧ c.toNat ≤ 57

structure HostName (t : Text) : Prop where
  length : t.length ≤ 253
  labels : ∀ part ∈ splitOn '.' t, HostLabel part
  notAddress : ¬ DottedQuad t

/-- does `b` follow `a` somewhere -/
def hasPair (a b : Char) : Text → Bool
  | [] => false
  | c :: t => (c == a && t.head? == some b) || hasPair a b t

/-- neither a line feed before the trailing dots nor a hyphen after a dot -/
def PlainValue (raw : Text) : Prop :=
  (rstripDots (strip raw)).getLast? ≠ some '\n' ∧ hasPair '.' '-' (strip raw) = false

/-- the values of the request are plain -/
def PlainRequest (payload : Option Fields) : Prop :=
  ∀ items, Json.get (payload.getD []) "identifiers" = .arr items →
    ∀ fields value, Json.obj fields ∈ items → Json.get fields "value" = .str value → PlainValue value.toList

/-- a host name, or one after `*.` where that is offered -/
structure Named (srv : Server) (identifier : Text) : Prop where
  host : HostName (baseName identifier)
  wildcard : isWildcard identifier = true → srv.allowWildcards = true ∧ .dns01 ∈ srv.config.challengeTypes

/-- the new order with its authorizations -/
structure Stored (db db' : Db) (identifiers : List Text) : Prop where
  order : ∃ o, db'.orders.rows = db.orders.rows ++ [o] ∧ o.id = db.orders.nextKey ∧ o.identifiers = identifiers
  authorizations : (db'.authorizationsOf db.orders.nextKey).map (fun a => (a.identifierValue, a.wildcard)) =
    identifiers.map fun i => (baseName i, isWildcard i)
  distinct : identifiers.Nodup

/-! ## Labels -/

/-- a label that starts with a hyphen follows a dot, or stands first -/
theorem hyphen_of_label {t part : Text} (hhead : part.head? = some '-') :
    (part ∈ (splitOn '.' t).tail → hasPair '.' '-' t = true) ∧ (part ∈ (splitOn '.' t).head? → t.head? = some '-') := by
  induction t with
  | nil =>
    refine ⟨fun h => absurd h List.not_mem_nil, fun h => ?_⟩
    cases h
    cases hhead
  | cons x t ih =>
    obtain ⟨ihtail, ihhead⟩ := ih
    unfold splitOn hasPair
    by_cases hx : x = '.'
    · rw [if_pos hx]
      refine ⟨fun h => ?_, fun h => ?_⟩
      · cases hs : splitOn '.' t with
        | nil => rw [hs] at h; cases h
        | cons q qs =>
          rw [hs, List.tail_cons] at h
          rcases List.mem_cons.1 h with rfl | h
          · simp [hx, ihhead (by rw [hs]; rfl)]
          · simp [ihtail (by rw [hs]; exact h)]
      · cases h
        cases hhead
    · rw [if_neg hx]
      cases hs : splitOn '.' t with
      | nil =>
        refine ⟨fun h => absurd h List.not_mem_nil, fun h => ?_⟩
        cases h
        exact hhead
      | cons q qs =>
        refine ⟨fun h => ?_, fun h => ?_⟩
        · simp [ihtail (by rw [hs]; exact h)]
        · cases h
          exact hhead

/-- a hyphen that follows a dot starts a label -/
theorem label_of_hyphen {t : Text} (h : hasPair '.' '-' t = true) :
    ∃ part ∈ (splitOn '.' t).tail, part.head? = some '-' := by
  induction t with
  | nil => cases h
  | cons x t ih =>
    simp only [hasPair, Bool.or_eq_true, Bool.and_eq_true, beq_iff_eq] at h
    unfold splitOn
    rcases h with ⟨rfl, hnext⟩ | h
    · rw [if_pos rfl, List.tail_cons]
      cases t with
      | nil => cases hnext
      | cons y t =>
        cases hnext
        unfold splitOn
        rw [if_neg (by decide)]
        cases splitOn '.' t with
        | nil => exact ⟨['-'], List.mem_cons_self, rfl⟩
        | cons q qs => exact ⟨'-' :: q, List.mem_cons_self, rfl⟩
    · obtain ⟨part, hpart, hhead⟩ := ih h
      split_ifs
      · exact ⟨part, List.mem_of_mem_tail hpart, hhead⟩
      · cases hs : splitOn '.' t with
        | nil => rw [hs] at hpart; cases hpart
        | cons q qs =>
          rw [hs] at hpart
          exact ⟨part, hpart, hhead⟩

/-- what the pattern accepts is a host name, except for a line feed at its end and hyphens after dots -/
theorem hostName_iff {b : Text} (h : matchesHostname b = true) (hquad : isDottedQuad b = false) :
    HostName b ↔ b.getLast? ≠ some '\n' ∧ hasPair '.' '-' b = false := by
  constructor
  · intro hname
    constructor
    · intro hlast
      have hmem : '\n' ∈ b := List.mem_of_getLast? hlast
      obtain ⟨part, hpart, hc⟩ := mem_splitOn hmem (by decide : '\n' ≠ '.')
      have hbad := (hname.labels part hpart).chars _ hc
      revert hbad
      decide
    · by_contra hpair
      obtain ⟨part, hpart, hhead⟩ := label_of_hyphen (by simpa using hpair)
      exact (hname.labels part (List.mem_of_mem_tail hpart)).first hhead
  · rintro ⟨hlast, hpair⟩
    have hsame : beforeNewline b = b := if_neg hlast
    unfold isDottedQuad at hquad
    unfold matchesHostname at h
    rw [hsame] at h hquad
    simp only [Bool.and_eq_true, decide_eq_true_eq, List.all_eq_true, bne_iff_ne] at h
    obtain ⟨⟨⟨-, hlen⟩, hhead⟩, hlabels⟩ := h
    refine ⟨hlen, fun part hpart => ?_, fun hdotted => ?_⟩
    · have hlabel := hlabels part hpart
      unfold isAcmeLabel at hlabel
      simp only [Bool.and_eq_true, decide_eq_true_eq, List.all_eq_true, bne_iff_ne, Bool.or_eq_true, beq_iff_eq] at hlabel
      obtain ⟨⟨hsize, hchars⟩, hend⟩ := hlabel
      refine ⟨hsize, hchars, fun hfirst => ?_, hend⟩
      cases hs : splitOn '.' b with
      | nil => rw [hs] at hpart; cases hpart
      | cons q qs =>
        rw [hs] at hpart
        rcases List.mem_cons.1 hpart with rfl | hpart
        · exact hhead ((hyphen_of_label hfirst).2 (by rw [hs]; rfl))
        · have := (hyphen_of_label hfirst).1 (by rw [hs]; exact hpart)
          rw [hpair] at this
          cases this
    · obtain ⟨hfour, hdigits⟩ := hdotted
      have hfalse : ¬ ((splitOn '.' b).length = 4 ∧
          ∀ part ∈ splitOn '.' b, part ≠ [] ∧ ∀ c ∈ part, 48 ≤ c.toNat ∧ c.toNat ≤ 57) := by
        simpa using hquad
      exact hfalse ⟨hfour, hdigits⟩

/-! ## Lowering -/

/-- lowering keeps the pairs of characters that stand before the letters -/
theorem hasPair_lowered {a b : Char} (ha : a.toNat < 65) (hb : b.toNat < 65) {t : Text} {pieces : List Text}
    (h : List.Forall₂ Lowered t pieces) : hasPair a b pieces.flatten = hasPair a b t := by
  induction h with
  | nil => rfl
  | @cons c piece t pieces hc hrest ih =>
    have hnext : (pieces.flatten.head? == some b) = (t.head? == some b) := by
      cases hrest with
      | nil => rfl
      | @cons d q t qs hd _ =>
        unfold Lowered at hd
        split_ifs at hd with hsmall
        · rw [hd]
          rfl
        · obtain ⟨hne, hbig⟩ := hd
          obtain ⟨e, q, rfl⟩ := List.exists_cons_of_ne_nil hne
          have heb : e ≠ b := by
            rintro rfl
            have := hbig e List.mem_cons_self
            omega
          have hdb : d ≠ b := by
            rintro rfl
            exact hsmall hb
          simp [heb, hdb]
    rw [List.flatten_cons]
    unfold Lowered at hc
    split_ifs at hc with hsmall
    · rw [hc, List.singleton_append]
      unfold hasPair
      rw [hnext, ih]
    · have hca : (c == a) = false := by
        rw [beq_eq_false_iff_ne]
        rintro rfl
        exact hsmall ha
      have hpiece : ∀ (q rest : Text), (∀ d ∈ q, 65 ≤ d.toNat) → hasPair a b (q ++ rest) = hasPair a b rest := by
        intro q rest hq
        induction q with
        | nil => rfl
        | cons d q ihq =>
          have hda : (d == a) = false := by
            rw [beq_eq_false_iff_ne]
            rintro rfl
            have := hq d List.mem_cons_self
            omega
          rw [List.cons_append, hasPair, hda, Bool.false_and, Bool.false_or]
          exact ihq fun e he => hq e (List.mem_cons_of_mem _ he)
      rw [hpiece piece _ hc.2, ih]
      simp [hasPair, hca]

/-- the same from the end of the text, after the dots there -/
theorem head_lowered {t : Text} {pieces : List Text} (h : List.Forall₂ Lowered t pieces) :
    ((pieces.map List.reverse).flatten.dropWhile (· == '.')).head? = some '\n' ↔
      (t.dropWhile (· == '.')).head? = some '\n' := by
  induction h with
  | nil => rfl
  | @cons c piece t pieces hc _ ih =>
    rw [List.map_cons, List.flatten_cons]
    unfold Lowered at hc
    split_ifs at hc with hsmall
    · rw [hc, List.reverse_singleton, List.singleton_append]
      by_cases hdot : c = '.'
      · subst hdot
        simpa using ih
      · simp [hdot]
    · have hbig : ∀ d : Char, 65 ≤ d.toNat → (d == '.') = false ∧ d ≠ '\n' := by
        intro d hd
        constructor
        · rw [beq_eq_false_iff_ne]
          rintro rfl
          revert hd
          decide
        · rintro rfl
          revert hd
          decide
      obtain ⟨e, rest, hrev⟩ := List.exists_cons_of_ne_nil (List.reverse_ne_nil_iff.2 hc.1)
      have he : e ∈ piece := by
        rw [← List.mem_reverse, hrev]
        exact List.mem_cons_self
      obtain ⟨hedot, heline⟩ := hbig e (hc.2 e he)
      obtain ⟨hcdot, hcline⟩ := hbig c (not_lt.1 hsmall)
      rw [hrev, List.cons_append, List.dropWhile_cons_of_neg (by simp [hedot]),
        List.dropWhile_cons_of_neg (by simp [hcdot])]
      simp [heline, hcline]

theorem getLast?_rstripDots (t : Text) : (rstripDots t).getLast? = (t.reverse.dropWhile (· == '.')).head? := by
  unfold rstripDots List.rdropWhile
  rw [List.getLast?_reverse]

/-- what is stored ends in a line feed when what was asked for does, up to trailing dots -/
theorem lineFeed_lower (uni : Unicode) (t : Text) :
    (rstripDots (uni.lower t)).getLast? = some '\n' ↔ (rstripDots t).getLast? = some '\n' := by
  obtain ⟨pieces, hlower, h⟩ := uni.lower_pieces t
  have hrev := head_lowered (List.forall₂_reverse_iff.2 h)
  rw [getLast?_rstripDots, getLast?_rstripDots, hlower, List.reverse_flatten, ← List.map_reverse]
  exact hrev

/-- trailing dots make no pair -/
theorem hasPair_rstripDots (t : Text) : hasPair '.' '-' (rstripDots t) = hasPair '.' '-' t := by
  induction t using List.reverseRecOn with
  | nil => rfl
  | append_singleton t c ih =>
    unfold rstripDots at ih ⊢
    by_cases hdot : c = '.'
    · rw [List.rdropWhile_concat_pos (· == '.') t c (by simp [hdot]), ih, hdot]
      clear ih
      induction t with
      | nil => rfl
      | cons d t ih =>
        rw [List.cons_append, hasPair, hasPair, ih]
        cases t <;> rfl
    · rw [List.rdropWhile_concat_neg (· == '.') t c (by simp [hdot])]

/-! ## Parsed values -/

/-- a parsed item, up to the pattern -/
structure Parsed (E : Env) (srv : Server) (item : Json) (value : Text) : Prop where
  text : ∃ fields raw, item = .obj fields ∧ Json.get fields "value" = .str raw ∧
    value = rstripDots (srv.names.uni.lower (strip raw.toList))
  wildcard : baseName value ≠ value → srv.allowWildcards = true ∧ .dns01 ∈ srv.config.challengeTypes
  host : matchesHostname (baseName value) = true
  notAddress : isDottedQuad (baseName value) = false

theorem parseIdentifier_ok {srv : Server} {item : Json} {value : Text} (h : parseIdentifier E srv item = .ok value) :
    Parsed E srv item value := by
  unfold parseIdentifier at h
  cases item with
  | obj fields =>
    dsimp only at h
    split at h
    · cases h
    cases hval : Json.get fields "value" with
    | str raw =>
      rw [hval] at h
      dsimp only at h
      split_ifs at h with hallow hoffered hbad
      cases h
      rw [not_or, not_or, Bool.not_eq_false, Bool.not_eq_true] at hbad
      refine ⟨⟨fields, raw, rfl, hval, rfl⟩, fun hne => ⟨?_, ?_⟩, hbad.2.1, hbad.2.2⟩
      · simpa using fun hf => hallow ⟨hne, hf⟩
      · by_contra hnot
        exact hoffered ⟨hne, hnot⟩
    | _ =>
      rw [hval] at h
      cases h
  | _ => cases h

/-- a wildcard is what the code takes for one -/
theorem baseName_ne_of_isWildcard {value : Text} (h : isWildcard value = true) : baseName value ≠ value := by
  unfold baseName
  rw [if_pos h]
  intro heq
  have hlen := congrArg List.length heq
  obtain ⟨rest, hrest⟩ := List.isPrefixOf_iff_prefix.1 h
  rw [← hrest] at hlen
  simp only [List.cons_append, List.nil_append, List.drop_succ_cons, List.drop_zero, List.length_cons] at hlen
  omega

/-- the wildcard label neither starts a pair nor ends the text -/
theorem base_of_host {value : Text} (h : matchesHostname (baseName value) = true) :
    (baseName value).getLast? = value.getLast? ∧ hasPair '.' '-' (baseName value) = hasPair '.' '-' value := by
  by_cases hwild : isWildcard value = true
  · obtain ⟨base, rfl⟩ := List.isPrefixOf_iff_prefix.1 hwild
    have hbase : baseName (['*', '.'] ++ base) = base := if_pos hwild
    rw [hbase] at h ⊢
    unfold matchesHostname at h
    simp only [Bool.and_eq_true, decide_eq_true_eq, bne_iff_ne] at h
    obtain ⟨⟨⟨hlen, -⟩, hhead⟩, -⟩ := h
    have hsub : ∀ c, base.head? = some c → c ≠ '\n' → (beforeNewline base).head? = some c := by
      intro c hc hne
      unfold beforeNewline
      split_ifs
      · cases base with
        | nil => cases hc
        | cons d rest =>
          cases hc
          cases rest with
          | nil => simp_all
          | cons e rest => rfl
      · exact hc
    cases base with
    | nil => simp [beforeNewline] at hlen
    | cons d rest =>
      refine ⟨by simp, ?_⟩
      have hd : d ≠ '-' := by
        rintro rfl
        exact hhead (hsub '-' rfl (by decide))
      simp [hasPair, hd]
  · rw [show baseName value = value from if_neg hwild]
    exact ⟨rfl, rfl⟩

/-- **A parsed value is a host name**, or one after `*.`, exactly when the text it comes from is plain. -/
theorem named_iff {srv : Server} {item : Json} {value : Text} (h : Parsed E srv item value) {fields : Fields} {raw : String}
    (hitem : item = .obj fields) (hraw : Json.get fields "value" = .str raw) : Named srv value ↔ PlainValue raw.toList := by
  obtain ⟨fields', raw', hitem', hraw', hvalue⟩ := h.text
  rw [hitem] at hitem'
  cases hitem'
  rw [hraw] at hraw'
  cases hraw'
  obtain ⟨hfeed, hpair⟩ := base_of_host h.host
  have hplain : PlainValue raw.toList ↔ value.getLast? ≠ some '\n' ∧ hasPair '.' '-' value = false := by
    obtain ⟨pieces, hlower, hpieces⟩ := srv.names.uni.lower_pieces (strip raw.toList)
    unfold PlainValue
    rw [hvalue, hasPair_rstripDots, ne_eq, ne_eq, lineFeed_lower, hlower, hasPair_lowered (by decide) (by decide) hpieces]
  rw [hplain, ← hfeed, ← hpair, ← hostName_iff h.host h.notAddress]
  exact ⟨fun hn => hn.host, fun hn => ⟨hn, fun hw => h.wildcard (baseName_ne_of_isWildcard hw)⟩⟩

/-! ## The loop over the items -/

/-- the identifiers are distinct, and exactly the values of the items -/
theorem parseEach_values {srv : Server} {items : List Json} {acc identifiers : List Text} (hacc : acc.Nodup)
    (h : parseEach E srv items acc = .ok identifiers) :
    identifiers.Nodup ∧ (∀ i ∈ acc, i ∈ identifiers) ∧
      (∀ i ∈ identifiers, i ∈ acc ∨ ∃ item ∈ items, parseIdentifier E srv item = .ok i) ∧
      ∀ item ∈ items, ∃ i ∈ identifiers, parseIdentifier E srv item = .ok i := by
  induction items generalizing acc with
  | nil =>
    cases h
    exact ⟨hacc, fun _ hi => hi, fun _ hi => .inl hi, nofun⟩
  | cons item items ih =>
    obtain ⟨value, hvalue, h⟩ := bind_eq_ok.1 h
    have hacc' : (if value ∈ acc then acc else acc ++ [value]).Nodup := by
      split_ifs with hmem
      · exact hacc
      · exact List.nodup_append.2 ⟨hacc, List.nodup_singleton _, by rintro a ha b hb rfl; simp_all⟩
    have hin : value ∈ (if value ∈ acc then acc else acc ++ [value]) := by
      split_ifs with hmem
      · exact hmem
      · simp
    have hold : ∀ i, i ∈ (if value ∈ acc then acc else acc ++ [value]) ↔ i ∈ acc ∨ i = value := by
      intro i
      split_ifs with hmem
      · exact ⟨.inl, fun h => h.elim id fun h => h ▸ hmem⟩
      · simp
    obtain ⟨hnodup, hkeep, hfrom, hall⟩ := ih hacc' h
    refine ⟨hnodup, fun i hi => hkeep i ((hold i).2 (.inl hi)), fun i hi => ?_, fun x hx => ?_⟩
    · rcases hfrom i hi with hi | ⟨x, hx, hparse⟩
      · rcases (hold i).1 hi with hi | rfl
        · exact .inl hi
        · exact .inr ⟨item, List.mem_cons_self, hvalue⟩
      · exact .inr ⟨x, List.mem_cons_of_mem _ hx, hparse⟩
    · rcases List.mem_cons.1 hx with rfl | hx
      · exact ⟨value, hkeep value hin, hvalue⟩
      · exact hall x hx

/-! ## Refusals -/

/-- matching a dnsName raises nothing -/
theorem within_dns {L : NameLib} (value : Text) (entries : List (Text × Text)) :
    (∃ found, NameConstraints.findExcluded L .dns value entries = .ok found) ∧
      ∃ b, NameConstraints.anyWithin L .dns value entries = .ok b := by
  induction entries with
  | nil => exact ⟨⟨_, rfl⟩, ⟨_, rfl⟩⟩
  | cons entry rest ih =>
    obtain ⟨⟨found, hfound⟩, ⟨b, hb⟩⟩ := ih
    simp only [NameConstraints.findExcluded, NameConstraints.anyWithin, NameConstraints.within]
    constructor
    · split_ifs
      · cases NameConstraints.dnsWithin L.uni value entry.2
        · exact ⟨_, hfound⟩
        · exact ⟨_, rfl⟩
      · exact ⟨_, hfound⟩
    · cases NameConstraints.dnsWithin L.uni value entry.2
      · exact ⟨_, hb⟩
      · exact ⟨_, rfl⟩

/-- the check of a dnsName raises a ValueError at most -/
theorem checkName_dns {L : NameLib} {permitted excluded : List (Text × Text)} {label : String} {value : Text} {e : PyError}
    (h : NameConstraints.checkName L permitted excluded label (.dns, value) = .error e) : e.isValueError = true := by
  obtain ⟨⟨found, hfound⟩, -⟩ := @within_dns L value excluded
  obtain ⟨-, b, hb⟩ := @within_dns L value (permitted.filter (·.1 == San.Kind.dns.text))
  unfold NameConstraints.checkName at h
  dsimp only at h
  rw [hfound] at h
  cases found with
  | some entry =>
    cases h
    rfl
  | none =>
    dsimp only at h
    split at h
    · cases h
    · rw [hb] at h
      cases b <;> cases h
      rfl

/-- so does the check of all of them, for a CA and the CAs above it -/
theorem checkChain_dns {L : NameLib} {names : List (San.Kind × Text)} (hnames : ∀ n ∈ names, n.1 = .dns)
    {chain : List IssuingCa} {e : PyError} (h : NameConstraints.checkChain L names chain = .error e) :
    e.isValueError = true := by
  have heach : ∀ {permitted excluded : List (Text × Text)} {label : String} {names : List (San.Kind × Text)},
      (∀ n ∈ names, n.1 = .dns) → NameConstraints.checkEach L permitted excluded label names = .error e →
        e.isValueError = true := by
    intro permitted excluded label names hnames h
    induction names with
    | nil => cases h
    | cons name rest ih =>
      obtain ⟨kind, value⟩ := name
      obtain rfl : kind = .dns := hnames _ List.mem_cons_self
      unfold NameConstraints.checkEach at h
      split at h
      · rename_i heq
        cases h
        exact checkName_dns heq
      · exact ih (fun n hn => hnames n (List.mem_cons_of_mem _ hn)) h
  induction chain with
  | nil => cases h
  | cons ca rest ih =>
    unfold NameConstraints.checkChain at h
    split at h
    · rename_i heq
      cases h
      unfold NameConstraints.checkNames at heq
      split at heq
      · cases heq
      · exact heach hnames heq
    · exact ih h

/-- the names of `DNS:` entries are dnsNames -/
theorem requestedSans_dns (uni : Unicode) (identifiers : List Text) :
    match NameConstraints.requestedSans uni (identifiers.map ("DNS:".toList ++ ·)) with
    | .ok names => ∀ n ∈ names, n.1 = .dns
    | .error e => e.isValueError = true := by
  induction identifiers with
  | nil => exact fun _ hn => nomatch hn
  | cons i rest ih =>
    rw [List.map_cons, NameConstraints.requestedSans, San.parseEntry_dns]
    split_ifs
    · rfl
    · cases hrest : NameConstraints.requestedSans uni (rest.map ("DNS:".toList ++ ·)) with
      | error e =>
        rw [hrest] at ih
        exact ih
      | ok names =>
        rw [hrest] at ih
        intro n hn
        rcases List.mem_cons.1 hn with rfl | hn
        · rfl
        · exact ih n hn

/-- **A refused request raises an AcmeProblem.** -/
theorem parseIdentifiers_error {srv : Server} {raw : Json} {e : Exc} (h : parseIdentifiers E srv raw = .error e) :
    ∃ p, e = .problem p := by
  have hitem : ∀ {item : Json} {e : Exc}, parseIdentifier E srv item = .error e → ∃ p, e = .problem p := by
    intro item e h
    unfold parseIdentifier at h
    cases item with
    | obj fields =>
      dsimp only at h
      split at h
      · exact ⟨_, (Except.error.inj h).symm⟩
      · cases hval : Json.get fields "value" with
        | str raw =>
          rw [hval] at h
          dsimp only at h
          split_ifs at h <;> exact ⟨_, (Except.error.inj h).symm⟩
        | _ =>
          rw [hval] at h
          exact ⟨_, (Except.error.inj h).symm⟩
    | _ => exact ⟨_, (Except.error.inj h).symm⟩
  have heach : ∀ {items : List Json} {acc : List Text} {e : Exc}, parseEach E srv items acc = .error e →
      ∃ p, e = .problem p := by
    intro items
    induction items with
    | nil => exact fun h => nomatch h
    | cons item rest ih =>
      intro acc e h
      unfold parseEach at h
      cases hv : parseIdentifier E srv item with
      | error e' =>
        rw [hv] at h
        cases h
        exact hitem hv
      | ok value =>
        rw [hv] at h
        exact ih h
  unfold parseIdentifiers at h
  split at h
  · rename_i item rest
    cases hids : parseEach E srv (item :: rest) [] with
    | error e' =>
      rw [hids] at h
      cases h
      exact heach hids
    | ok identifiers =>
      rw [hids] at h
      have hvalue : ∀ {e : PyError}, NameConstraints.enforce srv.names srv.cas srv.ca none
          (identifiers.map ("DNS:".toList ++ ·)) = .error e → e.isValueError = true := by
        intro e he
        have hsans := requestedSans_dns srv.names.uni identifiers
        unfold NameConstraints.enforce NameConstraints.requestedNames at he
        cases hnames : NameConstraints.requestedSans srv.names.uni (identifiers.map ("DNS:".toList ++ ·)) with
        | error e' =>
          rw [hnames] at he hsans
          cases he
          exact hsans
        | ok names =>
          rw [hnames] at he hsans
          simp only [bind, Except.bind] at he
          split_ifs at he
          exact checkChain_dns hsans he
      simp only [bind, Except.bind] at h
      split at h
      · rename_i e' heq
        rw [if_pos (hvalue heq)] at h
        exact ⟨_, (Except.error.inj h).symm⟩
      · split_ifs at h
        exact ⟨_, (Except.error.inj h).symm⟩
  · exact ⟨_, (Except.error.inj h).symm⟩

/-! ## The order -/

/-- one authorization for each identifier, in order -/
theorem authorizationsOf_addAuthorizations {srv : Server} {orderId accountId : ℤ} {expires : DateTime}
    (identifiers : List Text) (db : Db) :
    ((addAuthorizations srv orderId accountId expires identifiers db).authorizationsOf orderId).map
        (fun a => (a.identifierValue, a.wildcard)) =
      (db.authorizationsOf orderId).map (fun a => (a.identifierValue, a.wildcard)) ++
        identifiers.map fun i => (baseName i, isWildcard i) := by
  induction identifiers generalizing db with
  | nil => simp [addAuthorizations]
  | cons i rest ih =>
    rw [addAuthorizations, ih]
    simp [addAuthorization, Db.authorizationsOf]

theorem parseIdentifiers_items {srv : Server} {raw : Json} {identifiers : List Text}
    (h : parseIdentifiers E srv raw = .ok identifiers) :
    ∃ items, raw = .arr items ∧ parseEach E srv items [] = .ok identifiers := by
  unfold parseIdentifiers at h
  split at h
  · obtain ⟨parsed, hparsed, h⟩ := bind_eq_ok.1 h
    split at h
    · split_ifs at h
    · split_ifs at h
      cases h
      exact ⟨_, rfl, hparsed⟩
  · cases h

/-- all identifiers are host names exactly when the values of the request are plain -/
theorem named_iff_plainRequest {srv : Server} {payload : Option Fields} {identifiers : List Text}
    (h : parseIdentifiers E srv (Json.get (payload.getD []) "identifiers") = .ok identifiers) :
    (∀ i ∈ identifiers, Named srv i) ↔ PlainRequest payload := by
  obtain ⟨items, hraw, hparsed⟩ := parseIdentifiers_items h
  obtain ⟨-, -, hfrom, hall⟩ := parseEach_values List.nodup_nil hparsed
  constructor
  · intro hnamed items' hitems' fields value hitem hvalue
    rw [hraw] at hitems'
    cases hitems'
    obtain ⟨i, hi, hparse⟩ := hall _ hitem
    exact (named_iff (parseIdentifier_ok hparse) rfl hvalue).1 (hnamed i hi)
  · intro hplain i hi
    rcases hfrom i hi with hi | ⟨item, hitem, hparse⟩
    · cases hi
    · have hok := parseIdentifier_ok hparse
      obtain ⟨fields, raw, rfl, hvalue, -⟩ := hok.text
      exact (named_iff hok rfl hvalue).2 (hplain items hraw fields raw hitem hvalue)

theorem stored_of_newOrder {srv : Server} {account : AcmeAccount} {now : DateTime} {log : List Event} {db : Db}
    (hcontrol : Control E db log) {raw : Json} {identifiers : List Text} (h : parseIdentifiers E srv raw = .ok identifiers)
    (expires : DateTime) :
    Stored db ((addAuthorizations srv db.orders.nextKey account.id expires identifiers
      { db with orders := db.orders.insert (fun id =>
          ⟨id, account.id, srv.ca.id, .pending, identifiers, expires, none, none, none, none⟩) fun _ =>
            rfl }).touchAccount account.id now)
      identifiers := by
  obtain ⟨items, -, hparsed⟩ := parseIdentifiers_items h
  let withOrder : Db := { db with orders := db.orders.insert (fun id =>
    ⟨id, account.id, srv.ca.id, .pending, identifiers, expires, none, none, none, none⟩) fun _ => rfl }
  have hadded := @added_addAuthorizations srv db.orders.nextKey account.id expires identifiers withOrder
  -- no authorization belongs to an order that is not there yet
  have hfresh : withOrder.authorizationsOf db.orders.nextKey = [] := by
    apply List.filter_eq_nil_iff.2
    intro a ha horder
    obtain ⟨o, ho, hown⟩ := hcontrol.owned a ha
    have hlt := Table.key_lt_nextKey ho
    have hid := hown.1
    have horder := beq_iff_eq.1 horder
    omega
  refine ⟨⟨⟨db.orders.nextKey, account.id, srv.ca.id, .pending, identifiers, expires, none, none, none, none⟩, ?_,
    rfl, rfl⟩,
    ?_, (parseEach_values List.nodup_nil hparsed).1⟩
  · show (addAuthorizations srv _ _ _ _ _).orders.rows = _
    rw [hadded.orders]
    rfl
  · have hall := @authorizationsOf_addAuthorizations srv db.orders.nextKey account.id expires identifiers withOrder
    rw [hfresh, List.map_nil, List.nil_append] at hall
    exact hall

/-- **A new order names host names**, exactly as far as the values of the request are plain. After any run: `new_order`
either raises an AcmeProblem and leaves everything as it was, or the order is stored with distinct identifiers and their
authorizations, and all of them are host names if and only if every value is plain. -/
theorem order_names_hosts (accounts : AccountTable) (eabKeys : EabTable) (csrs : CsrTable) (certificates : CertTable)
    (start : DateTime) (ops : List (Op E)) (srv : Server) (account : AcmeAccount) (payload : Option Fields)
      (now : DateTime) :
    let s := (run (step E) (init accounts eabKeys csrs certificates start) ops).session
    match newOrder E srv account payload now s.db with
    | .error e => (∃ p, e = .problem p) ∧ finish s.db (.error ⟨e, s⟩) = s
    | .ok db => ∃ identifiers, Stored s.db db identifiers ∧ ((∀ i ∈ identifiers, Named srv i) ↔ PlainRequest payload) := by
  intro s
  have hcontrol := (controlled_run accounts eabKeys csrs certificates start ops).rows
  cases hparse : parseIdentifiers E srv (Json.get (payload.getD []) "identifiers") with
  | error e =>
    have hnew : newOrder E srv account payload now s.db = .error e := by
      unfold newOrder
      rw [hparse]
      rfl
    rw [hnew]
    refine ⟨parseIdentifiers_error hparse, ?_⟩
    unfold finish
    dsimp only
    split_ifs
    · rfl
    · exact setDb_self s
  | ok identifiers =>
    obtain ⟨db, hnew, hstored⟩ : ∃ db, newOrder E srv account payload now s.db = .ok db ∧ Stored s.db db identifiers := by
      unfold newOrder
      rw [hparse]
      exact ⟨_, rfl, stored_of_newOrder hcontrol hparse _⟩
    rw [hnew]
    exact ⟨identifiers, hstored, named_iff_plainRequest hparse⟩

/-! ## Names that are none -/

/-- one identifier with this value -/
def orderFor (value : String) : Option Fields :=
  some [("identifiers", .arr [.obj [("type", .str "dns"), ("value", .str value)]])]

def storedFor (value : String) : Option (List Text) :=
  ((newOrder sampleEnv sampleServer (sampleAccount 1) (orderFor value) 0
    (init (Table.empty.insert sampleAccount sampleAccount_id) Table.empty Table.empty Table.empty
      0).session.db).toOption.bind fun db =>
      db.orders.rows.head?).map (·.identifiers)

/-- **Values that are not plain are accepted**, and stored as they are. -/
theorem odd_names_accepted :
    storedFor "a.example\n." = some ["a.example\n".toList] ∧ storedFor "a.-b.example" = some ["a.-b.example".toList] ∧
      ¬ Named sampleServer "a.example\n".toList ∧ ¬ Named sampleServer "a.-b.example".toList := by
  refine ⟨by decide +kernel, by decide +kernel, fun h => ?_, fun h => ?_⟩
  · have hlabel := h.host.labels "example\n".toList (by decide +kernel)
    exact absurd (hlabel.chars '\n' (by decide)) (by decide)
  · exact (h.host.labels "-b".toList (by decide +kernel)).first rfl

end HostNames

end Chancery.Acme
