/-
Are the identifiers of an ACME order in the certificate's SAN extension, after any run of the server.

finalize compares the identifiers with the CSR's dNSNames, or with its common name when it has none. The SAN extension of
the certificate is made of the CSR's SAN entries alone.

(1) `Ordered`: every order names something, and every identifier is a host name (`HostIdentifier`). The pattern that checks
them lets one line feed through at the end.
(2) `identifiers_in_san_iff`: after a successful finalize every identifier is a dNSName of the certificate exactly when the
CSR has a dNSName at all, and writes the identifiers that end in a line feed with a trailing dot.
(3) `common_name_only_has_no_san`: a CSR with the name in its common name only gets a certificate without SANs.
-/
import Mathlib.Tactic
import Chancery.Scenarios.AcmeControl

namespace Chancery.Acme

open Chancery.Core CertificateNames ControlOfNames

namespace SubjectAltNames

variable {E : Env} {S : Set Server}

/-! ## (1) Identifiers -/

/-- the characters of a host name, and of `*.` -/
def isHostChar (c : Char) : Bool := isLowerAlnum c || c == '-' || c == '.' || c == '*'

/-- a host name or `*.` and a host name, possibly with a line feed after it -/
def HostIdentifier (i : Text) : Prop :=
  ∃ u, u.all isHostChar = true ∧ u ≠ [] ∧ u.getLast? ≠ some '.' ∧ (i = u ∨ i = u ++ [Char.ofNat 10])

/-- every order asks for a name, and for host names only -/
def Ordered (db : Db) : Prop := ∀ o ∈ db.orders, o.identifiers ≠ [] ∧ ∀ i ∈ o.identifiers, HostIdentifier i

theorem isSpace_of_isHostChar {c : Char} (h : isHostChar c = true) : isSpace c = false := by
  unfold isHostChar isLowerAlnum at h
  have hchar : ∀ {d : Char}, c = d → c.toNat = d.toNat := fun h => congrArg Char.toNat h
  simp only [Bool.or_eq_true, Bool.and_eq_true, decide_eq_true_eq, beq_iff_eq] at h
  have hn : (97 ≤ c.toNat ∧ c.toNat ≤ 122) ∨ (48 ≤ c.toNat ∧ c.toNat ≤ 57) ∨ (42 ≤ c.toNat ∧ c.toNat ≤ 46) := by
    rcases h with (((h | h) | h) | h) | h
    · exact Or.inl h
    · exact Or.inr (Or.inl h)
    all_goals
      subst h
      decide
  unfold isSpace
  simp only [Bool.or_eq_false_iff, Bool.and_eq_false_iff, decide_eq_false_iff_not, beq_eq_false_iff_ne]
  omega

/-- without its line feed, a host name is made of labels -/
theorem hostIdentifier_of_matches {b : Text} (h : matchesHostname b = true) :
    ∃ u, u.all isHostChar = true ∧ u ≠ [] ∧ u.getLast? ≠ some '.' ∧ (b = u ∨ b = u ++ [Char.ofNat 10]) := by
  unfold matchesHostname at h
  simp only [Bool.and_eq_true, decide_eq_true_eq] at h
  obtain ⟨⟨⟨hlen, _⟩, _⟩, hlabels⟩ := h
  rw [List.all_eq_true] at hlabels
  have hlabel : ∀ part ∈ splitOn '.' (beforeNewline b), part ≠ [] ∧ ∀ c ∈ part, isHostChar c = true := by
    intro part hpart
    have hp := hlabels part hpart
    unfold isAcmeLabel at hp
    simp only [Bool.and_eq_true, decide_eq_true_eq, List.all_eq_true] at hp
    refine ⟨List.ne_nil_of_length_pos hp.1.1.1, fun c hc => ?_⟩
    unfold isHostChar
    rw [hp.1.2 c hc]
    rfl
  refine ⟨beforeNewline b, ?_, List.ne_nil_of_length_pos hlen, ?_, ?_⟩
  · rw [List.all_eq_true]
    intro c hc
    by_cases hdot : c = '.'
    · rw [hdot]
      decide
    · obtain ⟨part, hpart, hmem⟩ := mem_splitOn hc hdot
      exact (hlabel part hpart).2 c hmem
  · intro hlast
    obtain ⟨part, parts, hs⟩ := splitOn_of_getLast? hlast
    refine (hlabel [] ?_).1 rfl
    rw [hs]
    exact List.mem_append_right _ List.mem_cons_self
  · unfold beforeNewline
    split_ifs with hnl
    · obtain ⟨u, hu⟩ := List.getLast?_eq_some_iff.1 hnl
      refine Or.inr ?_
      rw [hu, List.dropLast_concat]
    · exact Or.inl rfl

theorem hostIdentifier_of_base {i : Text} (h : matchesHostname (baseName i) = true) : HostIdentifier i := by
  obtain ⟨u, hchars, hne, hlast, hu⟩ := hostIdentifier_of_matches h
  unfold baseName at hu
  split_ifs at hu with hwild
  · obtain ⟨rest, hrest⟩ := List.isPrefixOf_iff_prefix.1 hwild
    rw [← hrest] at hu ⊢
    refine ⟨['*', '.'] ++ u, ?_, by simp, ?_, ?_⟩
    · simp only [List.all_append, hchars, Bool.and_true]
      decide
    · rw [List.getLast?_append_of_ne_nil _ hne]
      exact hlast
    · rcases hu with hu | hu
      · exact Or.inl (congrArg (['*', '.'] ++ ·) hu)
      · exact Or.inr (by rw [List.append_assoc]; exact congrArg (['*', '.'] ++ ·) hu)
  · exact ⟨u, hchars, hne, hlast, hu⟩

theorem Ordered.write {s s' : Session} (h : Ordered s.db) (hw : Write E S s s') : Ordered s'.db := by
  cases hw with
  | orders f hf hedge =>
    intro o' ho'
    obtain ⟨o, ho, rfl⟩ := List.mem_map.1 ho'
    rw [(orderEdge_keeps (hedge o ho)).2.2.1]
    exact h o ho
  | authzs f hf hedge => exact h
  | challenges f hf hedge => exact h
  | newOrder srv accountId identifiers expires hparse =>
    obtain ⟨raw, hparse⟩ := hparse
    intro o ho
    have horders := (@added_addAuthorizations srv s.db.orders.nextKey accountId expires identifiers
      { s.db with orders := s.db.orders.insert fun id =>
          ⟨id, accountId, srv.ca.id, .pending, identifiers, expires, none, none, none, none⟩ }).1
    rw [setDb_db, horders] at ho
    rcases Table.mem_insert.1 ho with hold | rfl
    · exact h o hold
    · obtain ⟨hne, hhost⟩ := parseIdentifiers_host hparse
      exact ⟨hne, fun i hi => hostIdentifier_of_base (hhost i hi).2⟩
  | rest db ho ha hc _ _ =>
    unfold Ordered
    rw [setDb_db, ho]
    exact h
  | attempt e he => exact h
  | signing o ho hst => exact h

theorem Ordered.chain {s s' : Session} (h : Ordered s.db) (hw : Chain E S s s') : Ordered s'.db := by
  induction hw with
  | refl => exact h
  | tail _ hw ih => exact ih.write hw

theorem ordered_run (accounts : AccountTable) (eabKeys : EabTable) (csrs : CsrTable) (certificates : CertTable)
    (now : DateTime) (ops : List (Op E)) :
    Ordered (run (step E) (init accounts eabKeys csrs certificates now) ops).session.db := by
  apply @run_invariant _ _ (step E) (fun s => Ordered s.session.db)
  · intro s o h
    obtain ⟨t, hchain, heq | heq⟩ := @handle_writes E Set.univ s.session (s.now + o.wait) o.lag
      (atTime E (s.now + o.wait) o.request) fun srv _ => Set.mem_univ srv
    · show Ordered (handle E _ _ _ _).db
      rw [heq]
      exact h.chain hchain
    · show Ordered (handle E _ _ _ _).db
      rw [heq]
      exact h
  · exact fun o ho => absurd ho (Table.not_mem_empty o)

/-! ## (2) Names that survive the way into the certificate -/

/-- white space has no case: lowering keeps it at either end -/
def LowerKeepsSpace (uni : Unicode) : Prop :=
  ∀ c, isSpace c = true → ∀ t, uni.lower (c :: t) = c :: uni.lower t ∧ uni.lower (t ++ [c]) = uni.lower t ++ [c]

theorem lowerKeepsSpace_ascii : LowerKeepsSpace .ascii := by
  intro c hc t
  have hlower : c.toLower = c := by
    unfold Char.toLower
    split_ifs with hupper
    · have hn : 65 ≤ c.toNat ∧ c.toNat ≤ 90 := ⟨hupper.1, hupper.2⟩
      unfold isSpace at hc
      simp only [Bool.or_eq_true, Bool.and_eq_true, decide_eq_true_eq, beq_iff_eq] at hc
      omega
    · rfl
  constructor
  · show c.toLower :: t.map Char.toLower = c :: t.map Char.toLower
    rw [hlower]
  · show (t ++ [c]).map Char.toLower = t.map Char.toLower ++ [c]
    rw [List.map_append, List.map_singleton, hlower]

section Normal

variable {uni : Unicode} {c : Char} {t v i : Text}

theorem HostIdentifier.ne_nil (h : HostIdentifier i) : i ≠ [] := by
  obtain ⟨u, _, hne, _, rfl | rfl⟩ := h
  · exact hne
  · simp

theorem HostIdentifier.head (h : HostIdentifier i) : ∀ c ∈ i.head?, isSpace c = false := by
  obtain ⟨u, hchars, hne, _, hi⟩ := h
  rw [List.all_eq_true] at hchars
  have hhead : i.head? = u.head? := by
    rcases hi with rfl | rfl
    · rfl
    · exact List.head?_append_of_ne_nil u hne
  intro c hc
  rw [hhead] at hc
  exact isSpace_of_isHostChar (hchars c (List.mem_of_mem_head? hc))

/-- white space at the end of an identifier is a line feed after a host name -/
theorem HostIdentifier.snoc (h : HostIdentifier (t ++ [c])) (hc : isSpace c = true) :
    c = Char.ofNat 10 ∧ t.all isHostChar = true ∧ t.getLast? ≠ some '.' := by
  obtain ⟨u, hchars, _, hlast, hi | hi⟩ := h
  · rw [← hi, List.all_append, Bool.and_eq_true] at hchars
    have hhost : isHostChar c = true := by simpa using hchars.2
    rw [isSpace_of_isHostChar hhost] at hc
    cases hc
  · obtain ⟨rfl, hcs⟩ := List.append_inj' hi rfl
    exact ⟨List.singleton_inj.1 hcs, hchars, hlast⟩

theorem normalName_snoc (hlower : LowerKeepsSpace uni) (hc : isSpace c = true) :
    normalName uni (t ++ [c]) = uni.lower t ++ [c] := by
  unfold normalName rstripDots
  rw [(hlower c hc t).2, List.rdropWhile_concat_neg]
  intro hdot
  rw [beq_iff_eq.1 hdot] at hc
  revert hc
  decide

theorem normalName_head (hlower : LowerKeepsSpace uni) (hc : isSpace c = true) :
    (normalName uni (c :: t)).head? = some c := by
  unfold normalName rstripDots
  rw [(hlower c hc t).1]
  obtain ⟨rest, hrest⟩ := List.rdropWhile_prefix (· == '.') (c :: uni.lower t)
  have hne : (c :: uni.lower t).rdropWhile (· == '.') ≠ [] := by
    rw [Ne, List.rdropWhile_eq_nil_iff]
    intro hall
    have hdot := beq_iff_eq.1 (hall c List.mem_cons_self)
    rw [hdot] at hc
    revert hc
    decide
  calc ((c :: uni.lower t).rdropWhile (· == '.')).head?
      = ((c :: uni.lower t).rdropWhile (· == '.') ++ rest).head? := (List.head?_append_of_ne_nil _ hne).symm
    _ = (c :: uni.lower t).head? := by rw [hrest]
    _ = some c := rfl

/-- a name that is an identifier once normalised starts without white space -/
theorem head_of_host (hlower : LowerKeepsSpace uni) (h : HostIdentifier (normalName uni v)) :
    ∀ c ∈ v.head?, isSpace c = false := by
  intro c hc
  by_contra hspace
  rw [Bool.not_eq_false] at hspace
  cases v with
  | nil => cases hc
  | cons d rest =>
    cases hc
    have hhead := h.head c (by rw [normalName_head hlower hspace]; rfl)
    rw [hspace] at hhead
    cases hhead

/-- a name without white space at its end, that is an identifier once normalised, is what is certified -/
theorem strip_of_host (hlower : LowerKeepsSpace uni) (h : HostIdentifier (normalName uni v))
    (hlast : ∀ c ∈ v.getLast?, isSpace c = false) : strip v = v := strip_eq_self (head_of_host hlower h) hlast

/-- white space at the end of such a name ends up at the end of the identifier -/
theorem getLast?_of_host (hlower : LowerKeepsSpace uni) (h : HostIdentifier (normalName uni v))
    (hnl : (normalName uni v).getLast? ≠ some (Char.ofNat 10)) : ∀ c ∈ v.getLast?, isSpace c = false := by
  intro c hc
  by_contra hspace
  rw [Bool.not_eq_false] at hspace
  obtain ⟨t, rfl⟩ := List.getLast?_eq_some_iff.1 hc
  rw [normalName_snoc hlower hspace] at h hnl
  exact hnl (by rw [(h.snoc hspace).1, List.getLast?_concat])

theorem normalName_ascii (hx : isAscii v = true) : normalName uni v = rstripDots (v.map Char.toLower) := by
  unfold normalName
  rw [uni.lower_ascii v hx]

/-- stripped ASCII text that is an identifier ending in a line feed once normalised ends in a dot -/
theorem dot_of_line_feed (hx : isAscii (strip v) = true)
    (hnl : (normalName uni (strip v)).getLast? = some (Char.ofNat 10)) : (strip v).getLast? = some '.' := by
  rw [normalName_ascii hx] at hnl
  rcases List.eq_nil_or_concat (strip v) with hnil | ⟨y, d, hyd⟩
  · rw [hnil] at hnl
    cases hnl
  rw [List.concat_eq_append] at hyd
  have hd : isSpace d = false := getLast?_strip (by rw [hyd, List.getLast?_concat])
  by_cases hdot : d = '.'
  · rw [hyd, hdot, List.getLast?_concat]
  · exfalso
    have hlower : d.toLower ≠ '.' ∧ d.toLower ≠ Char.ofNat 10 := by
      by_cases hupper : 65 ≤ d.toNat ∧ d.toNat ≤ 90
      · have hge := toNat_toLower hupper
        constructor <;> intro heq <;> rw [heq] at hge <;> revert hge <;> decide
      · rw [show d.toLower = d from dif_neg hupper]
        refine ⟨hdot, ?_⟩
        rintro rfl
        revert hd
        decide
    rw [hyd, List.map_append, List.map_singleton, rstripDots, List.rdropWhile_concat_neg _ _ _ (by simpa using hlower.1),
      List.getLast?_concat, Option.some.injEq] at hnl
    exact hlower.2 hnl

/-- such a name was written with that dot in the CSR -/
theorem written_with_dot (hlower : LowerKeepsSpace uni) (h : HostIdentifier (normalName uni v))
    (hx : isAscii (strip v) = true) (hnl : (normalName uni (strip v)).getLast? = some (Char.ofNat 10)) : strip v = v := by
  have hdot := dot_of_line_feed hx hnl
  refine strip_of_host hlower h fun c hc => ?_
  by_contra hspace
  rw [Bool.not_eq_false] at hspace
  obtain ⟨t, rfl⟩ := List.getLast?_eq_some_iff.1 hc
  have hhead := head_of_host hlower h
  rw [normalName_snoc hlower hspace] at h
  obtain ⟨_, hchars, hlast⟩ := h.snoc hspace
  -- what stands before the line feed is stripped already
  have hsame : strip (t ++ [c]) = strip t := by
    rw [← strip_rdropWhile (t ++ [c]), List.rdropWhile_concat_pos _ _ _ hspace, strip_rdropWhile]
  have ht : strip t = t := by
    refine strip_eq_self ?_ fun d hd => ?_
    · intro d hd
      exact hhead d (by rw [List.head?_append, hd]; rfl)
    · by_contra hsp
      rw [Bool.not_eq_false] at hsp
      obtain ⟨t', rfl⟩ := List.getLast?_eq_some_iff.1 hd
      rw [(hlower d hsp t').2, List.all_append, Bool.and_eq_true] at hchars
      have hhost : isHostChar d = true := by simpa using hchars.2
      rw [isSpace_of_isHostChar hhost] at hsp
      cases hsp
  rw [hsame, ht] at hdot hx
  obtain ⟨y, rfl⟩ := List.getLast?_eq_some_iff.1 hdot
  refine hlast ?_
  rw [uni.lower_ascii _ hx, List.map_append, List.getLast?_append_of_ne_nil _ (by simp)]
  rfl

end Normal

/-! ## (2) The identifiers of an order -/

/-- every identifier is a dNSName of the certificate, up to case and trailing dots -/
def CarriesAll (uni : Unicode) (identifiers : List Text) (cert : Issued) : Prop :=
  ∀ i ∈ identifiers, ∃ v, GeneralName.dns v ∈ cert.san.getD [] ∧ normalName uni v = i

/-- the CSR has a dNSName, and writes the identifiers that end in a line feed with a trailing dot -/
def NamedInSan (uni : Unicode) (identifiers : List Text) (csr : Csr) : Prop :=
  dnsValues (csr.san.getD []) ≠ [] ∧ ∀ i ∈ identifiers, i.getLast? = some (Char.ofNat 10) →
    ∃ v ∈ dnsValues (csr.san.getD []), normalName uni v = i ∧ v.getLast? = some '.'

/-- the dNSNames of an issued certificate are ASCII -/
theorem isAscii_of_dns {L : NameLib} {entries : List Text} {gs : List GeneralName}
    (h : San.buildGeneralNames L entries = .ok gs) {v : Text} (hv : GeneralName.dns v ∈ gs) : isAscii v = true := by
  obtain ⟨entry, _, kind, value, _, hto⟩ := San.mem_buildGeneralNames h hv
  cases kind with
  | dns =>
    simp only [San.toGeneralName] at hto
    split_ifs at hto with hascii
    cases hto
    exact hascii
  | ip =>
    simp only [San.toGeneralName] at hto
    cases hip : L.ipAddress value <;> rw [hip] at hto <;> cases hto
  | upn => cases hto
  | _ =>
    simp only [San.toGeneralName] at hto
    split_ifs at hto
    cases hto

theorem carriesAll_iff {uni : Unicode} (hlower : LowerKeepsSpace uni) {identifiers : List Text} {csr : Csr} {cert : Issued}
    (hne : identifiers ≠ []) (hhost : ∀ i ∈ identifiers, HostIdentifier i)
    (hwanted : (∀ n ∈ csrDns uni csr, n ∈ identifiers) ∧ ∀ i ∈ identifiers, i ∈ csrDns uni csr)
    (hsan : ∀ g, g ∈ cert.san.getD [] ↔ ∃ v ∈ dnsValues (csr.san.getD []), g = .dns (strip v))
    (hascii : ∀ v, GeneralName.dns v ∈ cert.san.getD [] → isAscii v = true) :
    CarriesAll uni identifiers cert ↔ NamedInSan uni identifiers csr := by
  -- with a dNSName in the CSR, its dNSNames are what was compared
  have hdns : dnsValues (csr.san.getD []) ≠ [] →
      csrDns uni csr = (dnsValues (csr.san.getD [])).map (normalName uni) := by
    intro h
    unfold csrDns
    simp only [List.map_eq_nil_iff, if_neg h]
  have hnames : ∀ v ∈ dnsValues (csr.san.getD []), HostIdentifier (normalName uni v) := by
    intro v hv
    apply hhost
    apply hwanted.1
    rw [hdns (List.ne_nil_of_mem hv)]
    exact List.mem_map_of_mem hv
  constructor
  · intro hall
    have hsome : dnsValues (csr.san.getD []) ≠ [] := by
      obtain ⟨i, hi⟩ := List.exists_mem_of_ne_nil _ hne
      obtain ⟨v, hv, _⟩ := hall i hi
      obtain ⟨w, hw, _⟩ := (hsan _).1 hv
      exact List.ne_nil_of_mem hw
    refine ⟨hsome, fun i hi hnl => ?_⟩
    obtain ⟨x, hx, hnorm⟩ := hall i hi
    have hxa := hascii x hx
    obtain ⟨v, hv, heq⟩ := (hsan _).1 hx
    cases heq
    rw [← hnorm] at hnl
    have hsame := written_with_dot hlower (hnames v hv) hxa hnl
    have hdot := dot_of_line_feed hxa hnl
    rw [hsame] at hdot hnorm
    exact ⟨v, hv, hnorm, hdot⟩
  · rintro ⟨hsome, hfeeds⟩ i hi
    have hkept : ∃ v ∈ dnsValues (csr.san.getD []), normalName uni v = i ∧ strip v = v := by
      by_cases hnl : i.getLast? = some (Char.ofNat 10)
      · obtain ⟨v, hv, hnorm, hdot⟩ := hfeeds i hi hnl
        refine ⟨v, hv, hnorm, strip_of_host hlower (hnames v hv) fun c hc => ?_⟩
        rw [hdot] at hc
        cases hc
        decide
      · have hmem := hwanted.2 i hi
        rw [hdns hsome] at hmem
        obtain ⟨v, hv, hnorm⟩ := List.mem_map.1 hmem
        rw [← hnorm] at hnl
        exact ⟨v, hv, hnorm, strip_of_host hlower (hnames v hv) (getLast?_of_host hlower (hnames v hv) hnl)⟩
    obtain ⟨v, hv, hnorm, hstrip⟩ := hkept
    exact ⟨strip v, (hsan _).2 ⟨v, hv, rfl⟩, by rw [hstrip]; exact hnorm⟩

/-- **(2) Every identifier is in the certificate.** After any run, when finalize succeeds on an order that was not valid
yet, the order is linked to a certificate that has every identifier as a dNSName exactly when the CSR has a dNSName, and
writes the identifiers that end in a line feed with a trailing dot. -/
theorem identifiers_in_san_iff {accounts : AccountTable} {eabKeys : EabTable} {csrs : CsrTable} {certificates : CertTable}
    {now : DateTime} {ops : List (Op E)} {f : Finalization} {plan : Phase → Tick} {s' : Session} {o : AcmeOrder}
    (hlower : LowerKeepsSpace f.server.names.uni)
    (h : finalize E f plan (run (step E) (init accounts eabKeys csrs certificates now) ops).session = (s', .ended (.ok ())))
    (ho : (run (step E) (init accounts eabKeys csrs certificates now) ops).session.db.orders.get? f.orderId = some o)
    (hst : o.status ≠ .valid) :
    ∃ csr order cert, decodeCsr f = .ok csr ∧ s'.db.orders.get? f.orderId = some order ∧
      order.certificateId = some cert.id ∧ s'.db.certificates.get? cert.id = some cert ∧
      (CarriesAll f.server.names.uni o.identifiers cert.issued ↔ NamedInSan f.server.names.uni o.identifiers csr) := by
  obtain ⟨hne, hhost⟩ := ordered_run accounts eabKeys csrs certificates now ops o (Table.mem_of_get? ho)
  obtain ⟨csr, hb, hdec, hnames⟩ := begin_of_ok h ho hst
  obtain ⟨order, cert, ⟨cn, now', sanJson, _, _, hleaf⟩, horder, _, hlink, hcert, _⟩ := finalize_issues h hb
  obtain ⟨hdns, _, hwanted⟩ := checkCsrNames_ok hnames
  have hbuild := CertService.buildGeneralNames_of_leafCertificate hleaf
  exact ⟨csr, order, cert, hdec, horder, hlink, hcert, carriesAll_iff hlower hne hhost hwanted
    (fun g => @san_iff _ _ hdns _ hbuild g) fun v hv => isAscii_of_dns hbuild hv⟩

/-! ## (3) A name in the common name only -/

/-- an order whose challenge was answered -/
def readyRun : List (Op sampleEnv) := provenRun.take 2

def readyState : St :=
  run (step sampleEnv) (init (Table.empty.insert sampleAccount sampleAccount_id) Table.empty Table.empty Table.empty 0)
    readyRun

/-- the order for a.example is ready -/
theorem readyState_order : ∃ o, readyState.session.db.orders.get? 1 = some o ∧ o.status = .ready ∧
    o.identifiers = ["a.example".toList] := by
  have hready : (readyState.session.db.orders.get? 1).any
      (fun o => o.status == .ready && o.identifiers == ["a.example".toList]) = true := by decide +kernel
  obtain ⟨o, ho, hst⟩ := (Option.any_eq_true _ _).1 hready
  rw [Bool.and_eq_true, beq_iff_eq, beq_iff_eq] at hst
  exact ⟨o, ho, hst⟩

/-- did a request succeed -/
def Phase.succeeded : Phase → Bool
  | .ended (.ok _) => true
  | _ => false

theorem ended_of_succeeded {x : Session × Phase} (h : Phase.succeeded x.2 = true) : x = (x.1, .ended (.ok ())) := by
  obtain ⟨s, p⟩ := x
  cases p with
  | ended r =>
    cases r with
    | ok u => rfl
    | error e => cases h
  | _ => cases h

/-- the theorem applies: a CSR with the name as a SAN -/
theorem identifiers_in_san_oneName :
    ∃ cert ∈ (finalize sampleEnv (sampleRequest oneNameCsr) smoothPlan readyState.session).1.db.certificates,
      CarriesAll .ascii ["a.example".toList] cert.issued := by
  obtain ⟨o, ho, hst, hids⟩ := readyState_order
  have hok : Phase.succeeded (finalize sampleEnv (sampleRequest oneNameCsr) smoothPlan readyState.session).2 = true := by
    decide +kernel
  unfold readyState at ho hok ⊢
  obtain ⟨csr, order, cert, hcsr, _, _, hcert, hiff⟩ := @identifiers_in_san_iff sampleEnv
    (Table.empty.insert sampleAccount sampleAccount_id) Table.empty Table.empty Table.empty 0 readyRun
      (sampleRequest oneNameCsr) smoothPlan _ o
    lowerKeepsSpace_ascii (ended_of_succeeded hok) ho (by rw [hst]; decide)
  have hone : decodeCsr (sampleRequest oneNameCsr) = .ok oneNameCsr := rfl
  rw [hone] at hcsr
  cases hcsr
  rw [hids] at hiff
  exact ⟨cert, Table.mem_of_get? hcert, hiff.2 ⟨by decide, by decide⟩⟩

/-- the identifier as the common name, and no SAN extension -/
def commonNameCsr : Csr where
  subject := [⟨"commonName", "a.example".toList⟩]
  san := none
  isSignatureValid := true

/-- **A certificate without SANs.** finalize accepts a CSR that has the identifier in its common name only, and the
certificate has no dNSName. -/
theorem common_name_only_has_no_san :
    (∃ o, readyState.session.db.orders.get? 1 = some o ∧ o.identifiers = ["a.example".toList]) ∧
    ∃ s', finalize sampleEnv (sampleRequest commonNameCsr) smoothPlan readyState.session = (s', .ended (.ok ())) ∧
      ∃ cert ∈ s'.db.certificates, ¬ CarriesAll .ascii ["a.example".toList] cert.issued := by
  have hok : Phase.succeeded (finalize sampleEnv (sampleRequest commonNameCsr) smoothPlan readyState.session).2 = true := by
    decide +kernel
  have hcert : (finalize sampleEnv (sampleRequest commonNameCsr) smoothPlan readyState.session).1.db.certificates.rows.any
      (fun cert => cert.issued.san.isNone) = true := by decide +kernel
  obtain ⟨cert, hmem, hnone⟩ := List.any_eq_true.1 hcert
  obtain ⟨o, ho, _, hids⟩ := readyState_order
  refine ⟨⟨o, ho, hids⟩, _, ended_of_succeeded hok, ⟨cert, hmem, fun h => ?_⟩⟩
  obtain ⟨v, hv, _⟩ := h "a.example".toList List.mem_cons_self
  rw [Option.isNone_iff_eq_none.1 hnone] at hv
  cases hv

end SubjectAltNames

end Chancery.Acme
