/-
Does an EAB key bind at most one account?

newAccount requests and revocations of EAB keys by any number of workers, on a CA that requires a binding.

(1) `useEab_ok`: a binding that passes names a row of this CA that is neither revoked nor used, and its MAC is over the
key of the request.

(2) If no registration and no revocation of a key commits while another registration has read the key and not yet committed
(`Unraced`), then every key is used by at most one account, and every account was created with a key that was good in the
committed state just before (`one_account`).

(3) `bound_twice`: two registrations that read the key before either commits create two accounts with it.
-/
import Mathlib.Tactic
import Chancery.Services.Acme.Registration
import Chancery.Scenarios.AcmeAccountKeys

namespace Chancery.Acme

open Chancery.Core

namespace AccountBinding

variable {E : Env}

/-! ## (1) A verified binding -/

/-- the binding in the payload names the row, and its MAC verifies over the JWK -/
def MacVerified (E : Env) (d : Directory) (payload jwk : Fields) (row : AcmeEabKey) : Prop :=
  ∃ fields header inner alg stored macKey signature,
    flattened (Json.get payload "externalAccountBinding") = some fields ∧
    decodeJson E (Json.get fields "protected") = .ok (.obj header) ∧
    (Json.get header "url").eqStr (newAccountUrl E d.caId) = true ∧
    decodeJson E (Json.get fields "payload") = .ok inner ∧ inner.pyEq (.obj jwk) = true ∧
    E.decryptSecret row.hmacKeyEnc = .ok stored ∧ decodeText stored.toList = .ok macKey ∧
    b64urlDecode (Json.get fields "signature") = .ok signature ∧ E.hmac alg macKey (signingInput fields) = signature

/-- a row of this CA that is neither revoked nor used -/
def Usable (d : Directory) (keys : EabTable) (row : AcmeEabKey) : Prop :=
  keys.get? row.id = some row ∧ row.caId = d.caId ∧ row.revoked = false ∧ row.usedAt = none

theorem catchValueError_ok {α : Type} {x : Result α} {p : Exc} {a : α} (h : catchValueError x p = .ok a) : x = .ok a := by
  unfold catchValueError at h
  split at h
  · split_ifs at h
  · exact h

theorem verifyEab_ok {eab : Json} {macKey : List UInt8} {url : String} {jwk : Fields} {kid : Json}
    (h : verifyEab E eab macKey url jwk = .ok kid) :
    ∃ fields header inner alg signature, flattened eab = some fields ∧
      decodeJson E (Json.get fields "protected") = .ok (.obj header) ∧ (Json.get header "url").eqStr url = true ∧
      decodeJson E (Json.get fields "payload") = .ok inner ∧ inner.pyEq (.obj jwk) = true ∧
      b64urlDecode (Json.get fields "signature") = .ok signature ∧ E.hmac alg macKey (signingInput fields) = signature := by
  unfold verifyEab at h
  cases hfl : flattened eab with
  | none => rw [hfl] at h; cases h
  | some fields =>
    simp only [hfl] at h
    obtain ⟨protected_, hprotected, h⟩ := bind_eq_ok.1 h
    have hheader := catchValueError_ok hprotected
    obtain ⟨header, hdict, h⟩ := bind_eq_ok.1 h
    have hobj : protected_ = .obj header := by
      cases protected_ with
      | obj fields' => cases hdict; rfl
      | _ => cases hdict
    rw [hobj] at hheader
    obtain ⟨alg?, _, h⟩ := bind_eq_ok.1 h
    cases alg? with
    | none => cases h
    | some alg =>
      simp only at h
      split_ifs at h with _ hurl
      obtain ⟨inner, hinner, h⟩ := bind_eq_ok.1 h
      split_ifs at h with hjwk
      obtain ⟨signature, hsignature, h⟩ := bind_eq_ok.1 h
      split_ifs at h with hmac
      exact ⟨fields, header, inner, alg, signature, rfl, hheader, by simpa using hurl, catchValueError_ok hinner,
        by simpa using hjwk, hsignature, not_not.1 hmac⟩

/-- **(1) A binding that passes.** -/
theorem useEab_ok {d : Directory} {keys : EabTable} {payload jwk : Fields} {r : Option AcmeEabKey}
    (hrequire : d.requireEab = true) (h : useEab E d keys payload jwk = .ok r) :
    ∃ row, r = some row ∧ Usable d keys row ∧ MacVerified E d payload jwk row := by
  unfold useEab at h
  split at h
  · rw [if_pos hrequire] at h
    cases h
  · obtain ⟨kid, _, h⟩ := bind_eq_ok.1 h
    split at h
    · cases h
    · rename_i row hfind
      split_ifs at h with hbad hused
      obtain ⟨stored, hstored, h⟩ := bind_eq_ok.1 h
      obtain ⟨macKey, hmacKey, h⟩ := bind_eq_ok.1 h
      obtain ⟨_, hverify, h⟩ := bind_eq_ok.1 h
      cases h
      obtain ⟨fields, header, inner, alg, signature, hfl, hheader, hurl, hinner, hjwk, hsignature, hmac⟩ :=
        verifyEab_ok hverify
      simp only [Bool.or_eq_true, decide_eq_true_eq, not_or, not_not, Bool.not_eq_true] at hbad
      refine ⟨row, rfl, ⟨Table.get?_key (List.mem_of_find?_eq_some hfind), hbad.1, hbad.2, ?_⟩, fields, header, inner, alg,
        stored, macKey, signature, hfl, hheader, hurl, hinner, hjwk, lift_ok hstored, hmacKey, hsignature, hmac⟩
      cases hu : row.usedAt with
      | none => rfl
      | some t => rw [hu] at hused; exact absurd rfl hused

/-! ## (2) At most one account -/

/-- a registration that has read the key and not yet committed -/
def Binding.holds (keyId : ℤ) : Binding → Bool
  | .checked _ _ (some row) => row.id = keyId
  | _ => false

/-- a commit on a key comes while no other registration holds it -/
def Unraced (d : Directory) (r : BindingRace) (o : ℕ × DateTime) : Prop :=
  match r.workers o.1 with
  | .checked tp _ (some row) =>
    byThumbprint r.shared.tables.accounts d.caId tp = none → ∀ j, j ≠ o.1 → Binding.holds row.id (r.workers j) = false
  | .revoking keyId => ∀ j, Binding.holds keyId (r.workers j) = false
  | _ => True

/-- the account was created with a good key -/
def Good (E : Env) (d : Directory) (c : Creation) : Prop :=
  ∃ row, c.keyId = some row.id ∧ Usable d c.before.eabKeys row ∧ MacVerified E d c.payload c.jwk row

/-- every key that an account has is marked used, and no two accounts have the same -/
structure OneEach (s : Accounts) : Prop where
  used : ∀ a ∈ s.accounts, ∀ k, a.eabKeyId = some k → ∃ row, s.eabKeys.get? k = some row ∧ row.usedAt.isSome = true
  once : ∀ a ∈ s.accounts, ∀ b ∈ s.accounts, ∀ k, a.eabKeyId = some k → b.eabKeyId = some k → a = b

structure Fits (E : Env) (d : Directory) (jobs : ℕ → Job E) (start : Accounts) (r : BindingRace) : Prop where
  one : OneEach r.shared.tables
  holding : ∀ i tp contact row, r.workers i = .checked tp contact row → ∃ v key, jobs i = .register v ∧ row = some key ∧
    Usable d r.shared.tables.eabKeys key ∧ MacVerified E d (v.payload.getD []) v.jwk key
  created : ∀ c ∈ r.shared.created, Good E d c
  logged : ∀ a ∈ r.shared.tables.accounts, (∃ a₀ ∈ start.accounts, a₀.id = a.id) ∨
    ∃ c ∈ r.shared.created, c.accountId = a.id ∧ c.jwk = a.jwk ∧ c.keyId = a.eabKeyId

section Step

variable {d : Directory} {jobs : ℕ → Job E} {start : Accounts} {r : BindingRace} {i : ℕ}

/-- a step that writes nothing -/
theorem Fits.move (h : Fits E d jobs start r) {b : Binding}
    (hb : ∀ tp contact row, b = .checked tp contact row → ∃ v key, jobs i = .register v ∧ row = some key ∧
      Usable d r.shared.tables.eabKeys key ∧ MacVerified E d (v.payload.getD []) v.jwk key) :
    Fits E d jobs start { r with workers := Function.update r.workers i b } := by
  refine ⟨h.one, fun j tp contact row hj => ?_, h.created, h.logged⟩
  by_cases hji : j = i
  · rw [hji] at hj ⊢
    simp only [Function.update_self] at hj
    exact hb tp contact row hj
  · simp only [Function.update_of_ne hji] at hj
    exact h.holding j tp contact row hj

/-- an account that is only seen -/
theorem Fits.touch (h : Fits E d jobs start r) (accountId : ℤ) (now : DateTime) (result : Result Unit) :
    Fits E d jobs start ⟨{ r.shared with tables := { r.shared.tables with
      accounts := r.shared.tables.accounts.update accountId (AcmeAccount.touch now) AcmeAccount.touch_id } },
        Function.update r.workers i (.ended result)⟩ := by
  have hsame : ∀ a ∈ (r.shared.tables.accounts.update accountId (AcmeAccount.touch now) AcmeAccount.touch_id),
      ∃ a₀ ∈ r.shared.tables.accounts, a = (if a₀.id = accountId then a₀.touch now else a₀) ∧ a.id = a₀.id ∧
        a.eabKeyId = a₀.eabKeyId ∧ a.jwk = a₀.jwk := by
    intro a ha
    obtain ⟨a₀, ha₀, heq⟩ := List.mem_map.1 ha
    refine ⟨a₀, ha₀, heq.symm, ?_⟩
    rw [← heq]
    split_ifs <;> exact ⟨rfl, rfl, rfl⟩
  refine ⟨⟨fun a ha k hk => ?_, fun a ha b hb k hak hbk => ?_⟩, ?_, h.created, fun a ha => ?_⟩
  · obtain ⟨a₀, ha₀, _, _, hkey, _⟩ := hsame a ha
    exact h.one.used a₀ ha₀ k (hkey ▸ hk)
  · obtain ⟨a₀, ha₀, heqa, _, hkeya, _⟩ := hsame a ha
    obtain ⟨b₀, hb₀, heqb, _, hkeyb, _⟩ := hsame b hb
    have hone := h.one.once a₀ ha₀ b₀ hb₀ k (hkeya ▸ hak) (hkeyb ▸ hbk)
    rw [heqa, heqb, hone]
  · exact (h.move (b := .ended result) nofun).holding
  · obtain ⟨a₀, ha₀, _, hid, hkey, hjwk⟩ := hsame a ha
    rw [hid, hkey, hjwk]
    exact h.logged a₀ ha₀

/-- a row whose key nobody holds is rewritten -/
theorem Fits.rewrite (h : Fits E d jobs start r) (keyId : ℤ) (g : AcmeEabKey → AcmeEabKey) (hg : ∀ k, (g k).id = k.id)
    (hused : ∀ k, k.usedAt.isSome = true → (g k).usedAt.isSome = true) {b : Binding} (hb : ∀ k, Binding.holds k b = false)
    (hbnone : ∀ tp contact, b ≠ .checked tp contact none)
    (hnobody : ∀ j, j ≠ i → Binding.holds keyId (r.workers j) = false) :
    Fits E d jobs start ⟨{ r.shared with tables := { r.shared.tables with
      eabKeys := r.shared.tables.eabKeys.update keyId g hg } }, Function.update r.workers i b⟩ := by
  refine ⟨⟨fun a ha k hk => ?_, h.one.once⟩, fun j tp contact row hj => ?_, h.created, h.logged⟩
  · obtain ⟨row, hrow, husedAt⟩ := h.one.used a ha k hk
    simp only [Table.get?_update]
    by_cases hkey : k = keyId
    · rw [if_pos hkey, hrow]
      exact ⟨g row, rfl, hused row husedAt⟩
    · rw [if_neg hkey]
      exact ⟨row, hrow, husedAt⟩
  · by_cases hji : j = i
    · rw [hji] at hj
      simp only [Function.update_self] at hj
      cases row with
      | none => exact absurd hj (hbnone tp contact)
      | some key =>
        have hholds := hb key.id
        rw [hj] at hholds
        exact absurd hholds (by simp [Binding.holds])
    · simp only [Function.update_of_ne hji] at hj
      obtain ⟨v, key, hjob, hrow, husable, hmac⟩ := h.holding j tp contact row hj
      have hne : key.id ≠ keyId := by
        have hfree := hnobody j hji
        rw [hj, hrow] at hfree
        exact of_decide_eq_false hfree
      refine ⟨v, key, hjob, hrow, ⟨?_, husable.2⟩, hmac⟩
      simp only [Table.get?_update, if_neg hne]
      exact husable.1

/-- an account is inserted with a key that is marked used and that no account has -/
theorem Fits.create (h : Fits E d jobs start r) {v : Verified E} {tp : Text} {contact : List String} {key : AcmeEabKey}
    {now : DateTime} {before : Accounts} (hbefore : before.accounts = r.shared.tables.accounts)
    (hgood : Usable d before.eabKeys key ∧ MacVerified E d (v.payload.getD []) v.jwk key)
    (hused : r.shared.tables.eabKeys.get? key.id = some (useRow now key))
    (hfree : ∀ a ∈ r.shared.tables.accounts, a.eabKeyId ≠ some key.id) :
    Fits E d jobs start ⟨⟨{ r.shared.tables with
      accounts := r.shared.tables.accounts.insert (newRow d v.jwk tp contact (some key) now) fun _ => rfl },
        r.shared.created ++ [⟨before.accounts.nextKey, v.jwk, v.payload.getD [], some key.id, before⟩]⟩, r.workers⟩ := by
  have hrows : ∀ a, a ∈ r.shared.tables.accounts.insert (newRow d v.jwk tp contact (some key) now) (fun _ => rfl) →
      a ∈ r.shared.tables.accounts ∨
        a = newRow d v.jwk tp contact (some key) now r.shared.tables.accounts.nextKey := fun a ha => Table.mem_insert.1 ha
  refine ⟨⟨fun a ha k hk => ?_, fun a ha b hb k hak hbk => ?_⟩, h.holding, fun c hc => ?_, fun a ha => ?_⟩
  · rcases hrows a ha with hold | hnew
    · exact h.one.used a hold k hk
    · rw [hnew] at hk
      cases hk
      exact ⟨_, hused, rfl⟩
  · rcases hrows a ha with ha | ha <;> rcases hrows b hb with hb | hb
    · exact h.one.once a ha b hb k hak hbk
    · rw [hb] at hbk
      cases hbk
      exact absurd hak (hfree a ha)
    · rw [ha] at hak
      cases hak
      exact absurd hbk (hfree b hb)
    · rw [ha, hb]
  · rcases List.mem_append.1 hc with hold | hnew
    · exact h.created c hold
    · rw [List.mem_singleton.1 hnew]
      exact ⟨key, rfl, hgood⟩
  · rcases hrows a ha with hold | hnew
    · rcases h.logged a hold with hstart | ⟨c, hc, hlog⟩
      · exact Or.inl hstart
      · exact Or.inr ⟨c, List.mem_append_left _ hc, hlog⟩
    · refine Or.inr ⟨_, List.mem_append_right _ (List.mem_singleton_self _), ?_⟩
      rw [hnew, hbefore]
      exact ⟨rfl, rfl, rfl⟩

/-- the commit of a registration -/
theorem Fits.commit (h : Fits E d jobs start r) {v : Verified E} {tp : Text} {contact : List String}
    {row : Option AcmeEabKey} (now : DateTime) (hjob : jobs i = .register v) (hi : r.workers i = .checked tp contact row)
    (hnobody : ∀ key, row = some key → ∀ j, j ≠ i → Binding.holds key.id (r.workers j) = false) :
    Fits E d jobs start ⟨⟨createAccount d v.jwk tp contact row now r.shared.tables, r.shared.created ++
      [⟨r.shared.tables.accounts.nextKey, v.jwk, v.payload.getD [], row.map (·.id), r.shared.tables⟩]⟩,
        Function.update r.workers i (.ended (.ok ()))⟩ := by
  obtain ⟨v', key, hjob', hrow, husable, hmac⟩ := h.holding i tp contact row hi
  have hv : v' = v := by
    have heq := hjob'.symm.trans hjob
    injection heq
  rw [hv] at hmac
  subst hrow
  have hmarked := h.rewrite (i := i) key.id (useRow now) (fun _ => rfl) (b := .ended (.ok ()))
    (fun _ _ => rfl) (fun _ => rfl) (by simp) (hnobody key rfl)
  refine hmarked.create rfl ⟨husable, hmac⟩ ?_ fun a ha hkey => ?_
  · have hself := @Table.get?_update_self _ _ r.shared.tables.eabKeys (useRow now) (fun _ => rfl) key.id
    rw [husable.1] at hself
    exact hself
  · -- an account with this key would have marked it used
    obtain ⟨used, hused, hat⟩ := h.one.used a ha key.id hkey
    have heq : used = key := Option.some.inj (hused.symm.trans husable.1)
    rw [heq, husable.2.2.2] at hat
    cases hat

theorem Fits.step (hrequire : d.requireEab = true) (o : ℕ × DateTime) (hC : Unraced d r o) (h : Fits E d jobs start r) :
    Fits E d jobs start (bindingStep E d jobs r o) := by
  obtain ⟨i, now⟩ := o
  unfold bindingStep Pool.act
  simp only
  unfold Unraced at hC
  simp only at hC
  cases hjob : jobs i with
  | register v =>
    unfold jobStep
    simp only
    cases hi : r.workers i with
    | start =>
      refine h.move fun tp contact row hb => ?_
      simp only [registerStep, lookAccount] at hb
      split at hb
      · cases hb
      · split at hb
        · split_ifs at hb
        · split_ifs at hb
          split at hb <;> cases hb
    | existing accountId => exact h.touch accountId now _
    | looked tp contact =>
      unfold registerStep
      simp only
      cases heab : useEab E d r.shared.tables.eabKeys (v.payload.getD []) v.jwk with
      | error e => exact h.move (by simp)
      | ok row =>
        obtain ⟨key, hrow, husable, hmac⟩ := useEab_ok hrequire heab
        refine h.move fun tp' contact' row' hb => ?_
        cases hb
        exact ⟨v, key, hjob, hrow, husable, hmac⟩
    | checked tp contact row =>
      unfold registerStep
      simp only
      cases hfound : byThumbprint r.shared.tables.accounts d.caId tp with
      | some found => exact h.move (by simp)
      | none =>
        refine h.commit now hjob hi fun key hkey => ?_
        rw [hi, hkey] at hC
        exact hC hfound
    | revoking keyId => exact h.move (by simp [registerStep])
    | ended result => exact h.move (by simp [registerStep])
  | revoke keyId =>
    unfold jobStep revokeStep
    simp only
    cases hi : r.workers i with
    | start =>
      simp only
      cases hrow : r.shared.tables.eabKeys.get? keyId with
      | none => exact h.move (by simp)
      | some row =>
        simp only
        split_ifs
        · exact h.move (by simp)
        · exact h.move (by simp)
    | revoking keyId' =>
      rw [hi] at hC
      exact h.rewrite keyId' revokeRow (fun _ => rfl) (b := .ended (.ok ())) (fun _ hk => hk) (fun _ => rfl) (by simp)
        fun j _ => hC j
    | checked tp contact row => exact h.move fun tp' contact' row' hb => h.holding i tp' contact' row' (hi.trans hb)
    | existing accountId => exact h.move (by simp)
    | looked tp contact => exact h.move (by simp)
    | ended result => exact h.move (by simp)

end Step

theorem fits_start {d : Directory} {jobs : ℕ → Job E} {start : Accounts} (h : OneEach start) :
    Fits E d jobs start (bindingStart start) :=
  ⟨h, fun _ _ _ _ hi => (nomatch hi), fun _ hc => (List.not_mem_nil hc).elim, fun a ha => Or.inl ⟨a, ha, rfl⟩⟩

/-- **(2) One account for each key.** In every run on a CA that requires a binding, in which no registration and no
revocation of a key commits while another registration holds the key: no key is used by two accounts, and every account was
there at the start or was created with a good key. -/
theorem one_account {d : Directory} {jobs : ℕ → Job E} {start : Accounts} (hrequire : d.requireEab = true)
    (hstart : OneEach start) {ops : List (ℕ × DateTime)}
    (hC : Meets (bindingStep E d jobs) (Unraced d) (bindingStart start) ops) :
    let s := (run (bindingStep E d jobs) (bindingStart start) ops).shared
    (∀ a ∈ s.tables.accounts, ∀ b ∈ s.tables.accounts, ∀ k, a.eabKeyId = some k → b.eabKeyId = some k → a = b) ∧
      ∀ a ∈ s.tables.accounts, (∃ a₀ ∈ start.accounts, a₀.id = a.id) ∨
        ∃ c ∈ s.created, c.accountId = a.id ∧ c.jwk = a.jwk ∧ c.keyId = a.eabKeyId ∧ Good E d c := by
  have hfits := run_invariant_of_meets (fun _ o hC h => Fits.step hrequire o hC h) (fits_start hstart) hC
  refine ⟨hfits.one.once, fun a ha => ?_⟩
  rcases hfits.logged a ha with hold | ⟨c, hc, hid, hjwk, hkey⟩
  · exact Or.inl hold
  · exact Or.inr ⟨c, hc, hid, hjwk, hkey, hfits.created c hc⟩

/-! ## (3) Two accounts -/

/-- the points of P-256 with the `x` of the base point -/
def pointJwk (y : String) : Fields :=
  [("kty", .str "EC"), ("crv", .str "P-256"), ("x", .str AccountKeys.plainX), ("y", .str y)]

def upperY : String := "T-NC4v4af5uO5-tKfA-eFivOM1drMV7Oy7ZAaDe_UfU"

def lowerY : String := "sBy9HAHlgGVxGBS1g_Bh6dQxzKmUzqExNEm_l8hArgo"

/-- the protected header of both bindings -/
def bindingHeader : Json :=
  .obj [("alg", .str "HS256"), ("kid", .str "k1"), ("url", .str "https://ca.example/acme/1/new-account")]

def headerText : String :=
  "eyJhbGciOiJIUzI1NiIsImtpZCI6ImsxIiwidXJsIjoiaHR0cHM6Ly9jYS5leGFtcGxlL2FjbWUvMS9uZXctYWNjb3VudCJ9"

def upperText : String :=
  "eyJjcnYiOiJQLTI1NiIsImt0eSI6IkVDIiwieCI6ImF4ZlI4dUVzUWtmNHZPYmxZNlJBOG5jRGZZRXQ2ek9nOUtFNVJkaVl3cFkiLCJ5Ijoi" ++
    "VC1OQzR2NGFmNXVPNS10S2ZBLWVGaXZPTTFkck1WN095N1pBYURlX1VmVSJ9"

def lowerText : String :=
  "eyJjcnYiOiJQLTI1NiIsImt0eSI6IkVDIiwieCI6ImF4ZlI4dUVzUWtmNHZPYmxZNlJBOG5jRGZZRXQ2ek9nOUtFNVJkaVl3cFkiLCJ5Ijoi" ++
    "c0J5OUhBSGxnR1Z4R0JTMWdfQmg2ZFF4ekttVXpxRXhORW1fbDhoQXJnbyJ9"

def asciiBytes (s : String) : List UInt8 := s.toList.map fun c => UInt8.ofNat c.toNat

/-- HMAC-SHA256 of the two bindings under the key `0123456789abcdef` -/
def bindingMac (message : Text) : List UInt8 :=
  if message = headerText.toList ++ '.' :: upperText.toList then
    [151, 72, 114, 68, 194, 134, 104, 170, 206, 77, 222, 46, 239, 244, 66, 157, 189, 201, 136, 182, 60, 144, 218, 89,
      13, 115,
      0, 145, 184, 15, 120, 127]
  else if message = headerText.toList ++ '.' :: lowerText.toList then
    [63, 7, 244, 251, 61, 169, 163, 224, 145, 225, 115, 217, 118, 20, 173, 220, 31, 245, 116, 52, 206, 169, 124, 105, 126,
      102, 232, 110, 207, 207, 179, 2]
  else []

/-- P-256, the three JSON documents, their MACs, and secrets stored as they are -/
def bindingEnv : Env :=
  { AccountKeys.curveEnv with
    loads := fun raw =>
      match [bindingHeader, .obj (pointJwk upperY), .obj (pointJwk lowerY)].find? fun v =>
        asciiBytes (Json.dumps .canonical v) == raw with
      | some v => .ok v
      | none => .error (.valueError "Expecting value")
    hmac := fun alg key message =>
      if alg = "HS256" ∧ key = asciiBytes "0123456789abcdef" then bindingMac message else []
    decryptSecret := fun stored => .ok (String.ofList (stored.map fun b => Char.ofNat b.toNat)) }

def bindingPayload (text mac : String) : Fields :=
  [("externalAccountBinding", .obj [("protected", .str headerText), ("payload", .str text), ("signature", .str mac)])]

def upperKey : Verified bindingEnv :=
  ⟨some (bindingPayload upperText "l0hyRMKGaKrOTd4u7_RCnb3JiLY8kNpZDXMAkbgPeH8"), pointJwk upperY,
    .ec .p256 AccountKeys.baseX AccountKeys.baseY, by decide +kernel⟩

def lowerKey : Verified bindingEnv :=
  ⟨some (bindingPayload lowerText "Pwf0-z2po-CR4XPZdhSt3B_1dDTOqXxpfmbobs_PswI"), pointJwk lowerY,
    .ec .p256 AccountKeys.baseX (AccountKeys.p256 - AccountKeys.baseY), by decide +kernel⟩

/-- one unused EAB key and no account -/
def oneKey : Accounts := ⟨Table.empty, Table.empty.insert fun id =>
    ⟨id, 1, "k1", asciiBytes "MDEyMzQ1Njc4OWFiY2RlZg", none, false⟩⟩

/-- two registrations with the key -/
def twoJobs : ℕ → Job bindingEnv
  | 0 => .register upperKey
  | _ => .register lowerKey

/-- a registration that holds no key -/
def Binding.Idle (b : Binding) : Prop := ∀ k, Binding.holds k b = false

theorem unraced_of_idle {d : Directory} {r : BindingRace} {o : ℕ × DateTime}
    (h : ∀ j, j ≠ o.1 → Binding.Idle (r.workers j)) : Unraced d r o := by
  unfold Unraced
  split
  · exact fun _ j hj => h j hj _
  · rename_i keyId hrevoking
    intro j
    by_cases hj : j = o.1
    · rw [hj, hrevoking]
      rfl
    · exact h j hj keyId
  · trivial

/-- the steps of one request leave the others where they are -/
theorem workers_one_worker {d : Directory} {jobs : ℕ → Job E} {i j : ℕ} (hj : j ≠ i) (times : List DateTime)
    (r : BindingRace) : (run (bindingStep E d jobs) r (times.map (i, ·))).workers j = r.workers j := by
  have hpool : bindingStep E d jobs = Pool.act (fun i now s b => jobStep E d now s b (jobs i)) := rfl
  rw [hpool]
  refine Pool.run_other fun o ho => ?_
  obtain ⟨t, -, rfl⟩ := List.mem_map.1 ho
  exact hj.symm

/-- the steps of one request while the others hold no key -/
theorem meets_one_worker {d : Directory} {jobs : ℕ → Job E} {i : ℕ} (times : List DateTime) :
    ∀ r : BindingRace, (∀ j, j ≠ i → Binding.Idle (r.workers j)) →
      Meets (bindingStep E d jobs) (Unraced d) r (times.map (i, ·)) := by
  induction times with
  | nil => exact fun r _ => trivial
  | cons t times ih =>
    intro r h
    refine ⟨unraced_of_idle h, ih _ fun j hj => ?_⟩
    have hsame : (bindingStep E d jobs r (i, t)).workers j = r.workers j := Pool.act_other hj
    rw [hsame]
    exact h j hj

theorem oneEach_oneKey : OneEach oneKey :=
  ⟨fun a ha => absurd ha (Table.not_mem_empty a), fun a ha => absurd ha (Table.not_mem_empty a)⟩

def Binding.outcome : Binding → Option Bool
  | .ended (.ok _) => some true
  | .ended (.error _) => some false
  | _ => none

/-- one registration after the other -/
def oneByOne : List (ℕ × DateTime) := [0, 0, 0].map (0, ·) ++ [0, 0].map (1, ·)

theorem oneByOne_ends :
    let r := run (bindingStep bindingEnv ⟨1, true⟩ twoJobs) (bindingStart oneKey) oneByOne
    (Binding.outcome (r.workers 0), Binding.outcome (r.workers 1),
      r.shared.tables.accounts.rows.map fun a => (a.id, a.eabKeyId)) = (some true, some false, [(1, some 1)]) := by
  decide +kernel

theorem idle_of_outcome {b : Binding} {ok : Bool} (h : Binding.outcome b = some ok) : Binding.Idle b := by
  cases b with
  | ended result => exact fun _ => rfl
  | _ => cases h

theorem oneByOne_unraced :
    Meets (bindingStep bindingEnv ⟨1, true⟩ twoJobs) (Unraced ⟨1, true⟩) (bindingStart oneKey) oneByOne := by
  refine meets_append.2 ⟨meets_one_worker [0, 0, 0] (bindingStart oneKey) fun _ _ _ => rfl, ?_⟩
  refine meets_one_worker [0, 0] _ fun j hj => ?_
  -- the steps of the second registration leave the first one where it ended
  rw [← workers_one_worker hj [0, 0], ← run_append]
  by_cases hzero : j = 0
  · rw [hzero]
    exact idle_of_outcome (Prod.mk.inj oneByOne_ends).1
  · rw [run_append, workers_one_worker hj, workers_one_worker hzero]
    exact fun _ => rfl

/-- the theorem applies to two registrations with one key; the first creates an account, the second is refused -/
theorem one_account_registered :
    let r := run (bindingStep bindingEnv ⟨1, true⟩ twoJobs) (bindingStart oneKey) oneByOne
    Binding.outcome (r.workers 0) = some true ∧ Binding.outcome (r.workers 1) = some false ∧
      r.shared.tables.accounts.rows.map (fun a => (a.id, a.eabKeyId)) = [(1, some 1)] ∧
      (∀ a ∈ r.shared.tables.accounts, ∀ b ∈ r.shared.tables.accounts, ∀ k, a.eabKeyId = some k → b.eabKeyId = some k →
        a = b) ∧
      ∀ a ∈ r.shared.tables.accounts, (∃ a₀ ∈ oneKey.accounts, a₀.id = a.id) ∨
        ∃ c ∈ r.shared.created, c.accountId = a.id ∧ c.jwk = a.jwk ∧ c.keyId = a.eabKeyId ∧ Good bindingEnv ⟨1, true⟩ c := by
  obtain ⟨hfirst, hrest⟩ := Prod.mk.inj oneByOne_ends
  obtain ⟨hsecond, hrows⟩ := Prod.mk.inj hrest
  exact ⟨hfirst, hsecond, hrows,
    @one_account bindingEnv ⟨1, true⟩ twoJobs oneKey rfl oneEach_oneKey oneByOne oneByOne_unraced⟩

def overlapping : List (ℕ × DateTime) := [(0, 0), (1, 0), (0, 0), (1, 0), (0, 0), (1, 0)]

/-- **Two accounts with one EAB key.** -/
theorem bound_twice :
    (run (bindingStep bindingEnv ⟨1, true⟩ twoJobs) (bindingStart oneKey) overlapping).shared.tables.accounts.rows.map
      (fun a => (a.id, a.eabKeyId)) = [(1, some 1), (2, some 1)] := by decide +kernel

end AccountBinding

end Chancery.Acme
