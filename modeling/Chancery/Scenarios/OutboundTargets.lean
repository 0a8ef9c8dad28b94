/-
Which addresses an http-01 validation contacts, for every domain, every chain of redirects, and every resolver.

(1) Every request was preceded by a check that passed (`checked_of_mem`), and there are at most six
(`length_fetchTraced_le`).
(2) The check and the HTTP client look the name up separately. What the client contacts was examined, and is harmless,
exactly when its own lookup answers with addresses that a check of the same validation was given, and none of them is
another spelling of one of the machine's own addresses (`LookupsAgree`): `fetch_safe_iff`.
-/
import Mathlib.Tactic
import Chancery.Services.Acme.Outbound

namespace Chancery.Acme

open Chancery.Core

section Targets

variable (E : Env) (w : Outbound)

/-! ## What is asked of a contacted address -/

/-- two spellings of one address -/
def SameHost (a b : Text) : Prop :=
  ∃ x y, w.ipAddress a = some x ∧ w.ipAddress b = some y ∧ unmapped x = unmapped y

/-- neither loopback nor link-local nor multicast nor unspecified, nor one of the machine's own addresses -/
def Harmless (hop : ℕ) (a : Text) : Prop :=
  (∃ ip, w.ipAddress a = some ip ∧ (w.classOf ip).isLoopback = false ∧ (w.classOf ip).isLinkLocal = false ∧
    (w.classOf ip).isMulticast = false ∧ (w.classOf ip).isUnspecified = false) ∧
    ∀ o ∈ ownAddresses w hop, ¬ SameHost w a o

/-- the check of a request examined the address and let the request through -/
def ExaminedBy (r : Contact) (a : Text) : Prop :=
  ∃ addresses, checkOutboundTarget E w r.hop r.host false = .ok addresses ∧ a ∈ addresses

/-- every address contacted was examined and allowed before, and is harmless -/
def Safe (contacts : List Contact) : Prop :=
  ∀ r ∈ contacts, ∀ t ∈ w.contacted r.hop r.url,
    ∃ r' ∈ contacts, r'.hop ≤ r.hop ∧ ExaminedBy E w r' (baseAddress t) ∧ Harmless w r'.hop (baseAddress t)

/-- what the resolver answers the check of a request -/
def checkAnswers (r : Contact) : List Text :=
  match w.checkInfos r.hop (targetHost E r.host) with
  | .error _ => []
  | .ok infos => infos.map baseAddress

/-- The client's lookup gives it addresses that the resolver has given a check of the same validation, and no other
spelling of an own address. -/
def LookupsAgree (contacts : List Contact) : Prop :=
  ∀ r ∈ contacts, ∀ t ∈ w.contacted r.hop r.url,
    ∃ r' ∈ contacts, r'.hop ≤ r.hop ∧ baseAddress t ∈ checkAnswers E w r' ∧
      ∀ o ∈ ownAddresses w r'.hop, SameHost w (baseAddress t) o → baseAddress t = o

/-! ## The check -/

variable {E w}

theorem mem_keepFirst {a b : Text} {acc : List Text} : a ∈ keepFirst acc b ↔ a ∈ acc ∨ a = b := by
  unfold keepFirst
  split_ifs with hb
  · exact ⟨.inl, fun h => h.elim id fun hab => hab ▸ hb⟩
  · simp

theorem mem_foldl_keepFirst {a : Text} {l acc : List Text} : a ∈ l.foldl keepFirst acc ↔ a ∈ acc ∨ a ∈ l := by
  induction l generalizing acc with
  | nil => simp
  | cons b l ih => rw [List.foldl_cons, ih, mem_keepFirst, List.mem_cons, or_assoc]

theorem mem_resolve {hop : ℕ} {host : Text} {addresses : List Text} (h : resolve E w hop host = .ok addresses) {a : Text} :
    a ∈ addresses ↔ ∃ infos, w.checkInfos hop host = .ok infos ∧ a ∈ infos.map baseAddress := by
  unfold resolve at h
  cases hinfos : w.checkInfos hop host with
  | error text =>
    rw [hinfos] at h
    cases h
  | ok infos =>
    simp only [hinfos] at h
    split_ifs at h
    cases h
    simp [mem_foldl_keepFirst]

/-- what an address that passed is not -/
theorem examine_ok {host a : Text} {own addresses : List Text} (h : examine E w host own false addresses = .ok ())
    (ha : a ∈ addresses) :
    (∃ ip, w.ipAddress a = some ip ∧ (w.classOf ip).isLoopback = false ∧ (w.classOf ip).isLinkLocal = false ∧
      (w.classOf ip).isMulticast = false ∧ (w.classOf ip).isUnspecified = false) ∧ a ∉ own := by
  induction addresses with
  | nil => exact absurd ha List.not_mem_nil
  | cons b rest ih =>
    unfold examine at h
    cases hip : w.ipAddress b with
    | none =>
      rw [hip] at h
      cases h
    | some ip =>
      simp only [hip, Bool.false_eq_true, if_false] at h
      split_ifs at h with hself hclass
      rcases List.mem_cons.1 ha with rfl | ha
      · simp only [Bool.or_eq_true, not_or, Bool.not_eq_true, List.contains_eq_mem, decide_eq_false_iff_not] at hself hclass
        exact ⟨⟨ip, hip, hself.1, hclass.1.1.1, hclass.1.1.2, hclass.1.2⟩, hself.2⟩
      · exact ih h ha

theorem checkOutboundTarget_ok {hop : ℕ} {host : Text} {addresses : List Text}
    (h : checkOutboundTarget E w hop host false = .ok addresses) :
    resolve E w hop (targetHost E host) = .ok addresses ∧
      examine E w (targetHost E host) (ownAddresses w hop) false addresses = .ok () := by
  simp only [checkOutboundTarget, Bool.false_eq_true, if_false] at h
  split_ifs at h with hempty
  obtain ⟨resolved, hresolved, h⟩ := bind_eq_ok.1 h
  obtain ⟨_, hexamine, h⟩ := bind_eq_ok.1 h
  cases h
  exact ⟨hresolved, hexamine⟩

/-- a check that passes has examined what the resolver answered it -/
theorem mem_iff_checkAnswers {r : Contact} {a : Text} {addresses : List Text}
    (h : checkOutboundTarget E w r.hop r.host false = .ok addresses) : a ∈ addresses ↔ a ∈ checkAnswers E w r := by
  rw [mem_resolve (checkOutboundTarget_ok h).1]
  unfold checkAnswers
  cases w.checkInfos r.hop (targetHost E r.host) with
  | error text => simp
  | ok infos => simp

/-! ## The requests -/

/-- no more requests than hops -/
theorem length_fetchTraced_le {cfg : Config} {host expected : Text} (left hop : ℕ) (url : Text) :
    (fetchTraced E w cfg host expected left hop url).1.length ≤ left := by
  induction left generalizing hop url with
  | zero => simp [fetchTraced]
  | succ left ih =>
    unfold fetchTraced
    repeat' split
    all_goals simp
    exact ih _ _

/-- a request is made only after its check has passed -/
theorem checked_of_mem {cfg : Config} (hloop : cfg.allowLoopback = false) (hhook : cfg.connectHost = none)
    {host expected : Text} {left hop : ℕ} {url : Text} {r : Contact}
    (hr : r ∈ (fetchTraced E w cfg host expected left hop url).1) :
    ∃ addresses, checkOutboundTarget E w r.hop r.host false = .ok addresses := by
  induction left generalizing hop url with
  | zero => simp [fetchTraced] at hr
  | succ left ih =>
    have hallow : (cfg.allowLoopback || (hop == 0 && cfg.connectHost.isSome)) = false := by simp [hloop, hhook]
    unfold fetchTraced at hr
    rw [hallow] at hr
    split at hr
    · exact absurd hr List.not_mem_nil
    split at hr
    · exact absurd hr List.not_mem_nil
    split at hr
    · exact absurd hr List.not_mem_nil
    rename_i parsed _ _ _ addresses hcheck
    -- what follows adds this hop's request, and after a redirect those of the next hops
    have hself : ∀ {s : Contact}, s = ⟨hop, url, parsed.hostname⟩ →
        ∃ addresses, checkOutboundTarget E w s.hop s.host false = .ok addresses := by
      rintro s rfl
      exact ⟨addresses, hcheck⟩
    split at hr
    · split at hr
      · split at hr
        · exact hself (List.mem_singleton.1 hr)
        · rcases List.mem_cons.1 hr with hr | hr
          · exact hself hr
          · exact ih hr
      · exact hself (List.mem_singleton.1 hr)
    · exact hself (List.mem_singleton.1 hr)
    · split_ifs at hr <;> exact hself (List.mem_singleton.1 hr)

/-- **Where a fetch goes.** With the test hooks off, a validation makes at most six requests, and contacts only addresses
that it has examined and allowed and that are harmless, exactly when the client's lookups agree with those of the checks. -/
theorem fetch_safe_iff (E : Env) (w : Outbound) (cfg : Config) (host token expected : Text)
    (hloop : cfg.allowLoopback = false) (hhook : cfg.connectHost = none) :
    (Safe E w (fetchContacts E w cfg host token expected) ∧
        (fetchContacts E w cfg host token expected).length ≤ maxRedirects + 1) ↔
      LookupsAgree E w (fetchContacts E w cfg host token expected) := by
  have hlen : (fetchContacts E w cfg host token expected).length ≤ maxRedirects + 1 := length_fetchTraced_le _ _ _
  rw [and_iff_left hlen]
  unfold Safe LookupsAgree
  refine forall₂_congr fun r hr => forall₂_congr fun t ht => exists_congr fun r' => and_congr_right fun hr' =>
    and_congr_right fun hhop => ?_
  obtain ⟨addresses, hcheck⟩ := checked_of_mem hloop hhook hr'
  constructor
  · rintro ⟨⟨addresses', hcheck', ha⟩, -, hown⟩
    exact ⟨(mem_iff_checkAnswers hcheck').1 ha, fun o ho hsame => absurd hsame (hown o ho)⟩
  · rintro ⟨ha, hown⟩
    have hmem := (mem_iff_checkAnswers hcheck).2 ha
    obtain ⟨hclasses, hnotown⟩ := examine_ok (checkOutboundTarget_ok hcheck).2 hmem
    refine ⟨⟨addresses, hcheck, hmem⟩, hclasses, fun o ho hsame => hnotown ?_⟩
    rw [hown o ho hsame]
    exact ho

end Targets

/-! ## Examples -/

/-- dotted quads, as far as the examples need them -/
def quad : Text → Option IpAddr
  | t => if t = "127.0.0.1".toList then some ⟨4, 0x7f000001⟩ else if t = "203.0.113.9".toList then some ⟨4, 0xcb007109⟩
      else none

/-- a machine named localhost, and a resolver that answers the check with one address and the client with another -/
def twoAnswers (examined connected : Text) : Outbound where
  net :=
    { urlsplit := fun _ => .ok ⟨"http".toList, "a.example".toList, "a.example".toList⟩
      urljoin := fun _ url => .ok url
      checkTarget := fun _ _ _ => .ok ()
      openUrl := fun _ _ => .failure "timed out"
      decode := fun _ => []
      resolvers := .ok (.ok [])
      lookupTxt := fun _ _ => .ok [] }
  ipAddress := quad
  classOf := fun a => ⟨a.value / 2 ^ 24 == 127, false, false, false, false, false⟩
  ownInfos := fun _ => ["127.0.0.1".toList]
  checkInfos := fun _ _ => .ok [examined]
  requestHost := fun _ => "a.example".toList
  connectInfos := fun _ _ => .ok [connected]
  reaches := fun _ _ => true
  answer := fun _ _ => .response 200 []

/-- libraries that accept everything -/
def plainEnv : Env where
  sha := .echo
  uni := .ascii
  keys := ⟨fun _ _ => .ok (), fun _ _ _ => .ok ()⟩
  repr := fun _ => "?"
  loads := fun _ => .error (.valueError "Expecting value")
  hmac := fun _ _ _ => []
  decryptSecret := fun _ => .error (.valueError "Invalid token")
  base := "https://ca.example"

/-- the defaults -/
def plainConfig : Config := ⟨[.http01], 168, 100, 80, false, none, 10, 10⟩

/-- the request of a validation that is not redirected -/
def onlyRequest : Contact := ⟨0, "http://a.example/.well-known/acme-challenge/".toList, "a.example".toList⟩

/-- the theorem applies to a name whose address stays the same: the fetch is safe -/
theorem fetch_safe_iff_steady :
    Safe plainEnv (twoAnswers "203.0.113.9".toList "203.0.113.9".toList)
      (fetchContacts plainEnv (twoAnswers "203.0.113.9".toList "203.0.113.9".toList) plainConfig "a.example".toList
        [] []) := by
  refine ((fetch_safe_iff plainEnv (twoAnswers "203.0.113.9".toList "203.0.113.9".toList) plainConfig
    "a.example".toList [] [] rfl rfl).2 ?_).1
  have hcontacts : fetchContacts plainEnv (twoAnswers "203.0.113.9".toList "203.0.113.9".toList) plainConfig
      "a.example".toList [] [] = [onlyRequest] := by
    decide +kernel
  rw [hcontacts]
  intro r hr t ht
  rw [List.mem_singleton.1 hr] at ht
  have htarget : t = "203.0.113.9".toList := List.mem_singleton.1 ht
  subst htarget
  refine ⟨onlyRequest, List.mem_cons_self, by rw [List.mem_singleton.1 hr], by decide, fun o ho hsame => ?_⟩
  -- the machine's only address is another one
  rw [show o = "127.0.0.1".toList from List.mem_singleton.1 ho] at hsame
  obtain ⟨x, y, hx, hy, hxy⟩ := hsame
  have hx' : some x = some ⟨4, 0xcb007109⟩ := hx.symm.trans (by decide)
  have hy' : some y = some ⟨4, 0x7f000001⟩ := hy.symm.trans (by decide)
  cases hx'
  cases hy'
  exact absurd hxy (by decide)

/-- a name that is rebound between the check and the request: the request goes to the loopback address -/
theorem rebound_name_contacts_loopback :
    ¬ ∀ (E : Env) (w : Outbound) (cfg : Config) (host token expected : Text), cfg.allowLoopback = false →
      cfg.connectHost = none →
      Safe E w (fetchContacts E w cfg host token expected) ∧
        (fetchContacts E w cfg host token expected).length ≤ maxRedirects + 1 := by
  intro h
  have hsafe := (h plainEnv (twoAnswers "203.0.113.9".toList "127.0.0.1".toList) plainConfig "a.example".toList [] []
    rfl rfl).1
  have hcontacts : fetchContacts plainEnv (twoAnswers "203.0.113.9".toList "127.0.0.1".toList) plainConfig
      "a.example".toList [] [] = [onlyRequest] := by
    decide +kernel
  rw [hcontacts] at hsafe
  obtain ⟨r', -, -, -, ⟨ip, hip, hloop, -⟩, -⟩ := hsafe _ List.mem_cons_self "127.0.0.1".toList (by decide)
  have hquad : some ip = some ⟨4, 0x7f000001⟩ := hip.symm.trans (by decide)
  cases hquad
  revert hloop
  decide

end Chancery.Acme
