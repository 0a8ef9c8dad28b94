/-
One ACME account per public key, over runs of newAccount, account updates (deactivation included) and keyChange on any
CAs.

An account is found by the thumbprint of its JWK, a hash of the TEXT of the members. A key written the way
`public_key_to_jwk` writes it (`Canonical`) has one thumbprint, so the lookup by thumbprint is a lookup by key.

(1) What a request does to the accounts table (`newAccount_cases`, `updateAccount_cases`, `changeKey_cases`).
(2) `account_keys_one_to_one`: in a run all of whose newAccount and keyChange requests carry canonical JWKs, two accounts
of one CA never have the same public key, and an account that stopped being valid keeps its row and its key for good, so
that key is never registered or rolled onto again.
(3) `padded_key_registers_twice`: the decoder takes other spellings too (here: one of the two unused bits of the last
character of `x`), and then one curve point is registered twice.
-/
import Mathlib.Tactic
import Chancery.Core.Run
import Chancery.Services.Acme.Accounts

namespace Chancery.Acme

open Chancery.Core

namespace AccountKeys

/-! ## The system -/

structure St where
  db : Accounts
  now : DateTime

/-- one authenticated request; `wait` is the time since the one before it -/
inductive Op (E : Env)
  | newAccount (wait : ℕ) (directory : Directory) (request : Verified E)
  | updateAccount (wait : ℕ) (caId accountId : ℤ) (payload : Fields)
  | keyChange (wait : ℕ) (caId accountId : ℤ) (inner : Verified E)

/-- no accounts yet, any external account binding keys -/
def init (eabKeys : EabTable) (now : DateTime) : St := ⟨⟨Table.empty, eabKeys⟩, now⟩

/-- the effect of a request on the accounts; a refused request has none -/
def apply (E : Env) (db : Accounts) (now : DateTime) : Op E → Result Accounts
  | .newAccount _ d v => (Acme.newAccount E d db v now).map (·.1)
  | .updateAccount _ caId accountId payload => do
    let account ← accountForKid db.accounts caId accountId
    if payload.isEmpty then .ok db else Acme.updateAccount E db account payload now
  | .keyChange _ caId accountId inner => do
    let account ← accountForKid db.accounts caId accountId
    changeKey E caId db account inner

def Op.wait {E : Env} : Op E → ℕ
  | .newAccount wait _ _ => wait
  | .updateAccount wait _ _ _ => wait
  | .keyChange wait _ _ _ => wait

def step (E : Env) (s : St) (o : Op E) : St :=
  let now := s.now + o.wait
  match apply E s.db now o with
  | .ok db => ⟨db, now⟩
  | .error _ => ⟨s.db, now⟩

/-- the public key of an account -/
def keyOf (E : Env) (a : AcmeAccount) : Result PublicKey := jwkToPublicKey E (.obj a.jwk)

/-- no two accounts of one CA have the same public key -/
def OneToOne (E : Env) (t : AccountTable) : Prop :=
  ∀ a ∈ t, ∀ b ∈ t, a.caId = b.caId → ∀ key, keyOf E a = .ok key → keyOf E b = .ok key → a = b

/-- the members of the JWK are the ones `public_key_to_jwk` writes for its key -/
def Canonical {E : Env} (v : Verified E) : Prop :=
  ∃ canon, publicKeyToJwk v.key = .ok canon ∧ thumbprintMembers E v.jwk = thumbprintMembers E canon

/-- a request that binds a key writes it canonically -/
def BindsCanonical {E : Env} (_ : St) : Op E → Prop
  | .newAccount _ _ v => Canonical v
  | .updateAccount _ _ _ _ => True
  | .keyChange _ _ _ inner => Canonical inner

/-! ## (1) What a request does -/

variable {E : Env}

theorem accountForKid_ok {t : AccountTable} {caId id : ℤ} {a : AcmeAccount} (h : accountForKid t caId id = .ok a) :
    a ∈ t ∧ a.id = id ∧ a.caId = caId ∧ a.status = .valid := by
  simp only [accountForKid] at h
  cases hg : t.get? id with
  | none => rw [hg] at h; cases h
  | some b =>
    simp only [hg] at h
    split_ifs at h with hca hst
    cases h
    exact ⟨Table.mem_of_get? hg, Table.key_of_get? hg, by simpa using hca, by simpa using hst⟩

theorem byThumbprint_some {t : AccountTable} {caId : ℤ} {tp : Text} {a : AcmeAccount}
    (h : byThumbprint t caId tp = some a) : a ∈ t ∧ a.caId = caId ∧ a.thumbprint = tp := by
  have hp := List.find?_some h
  simp only [Bool.and_eq_true, beq_iff_eq] at hp
  exact ⟨List.mem_of_find?_eq_some h, hp⟩

theorem byThumbprint_none {t : AccountTable} {caId : ℤ} {tp : Text} (h : byThumbprint t caId tp = none) :
    ∀ a ∈ t, a.caId = caId → a.thumbprint ≠ tp := by
  intro a ha hca htp
  exact absurd (List.find?_eq_none.1 h a ha) (by simp [hca, htp])

/-- newAccount touches a live account of the key, or inserts one under a thumbprint the CA does not have -/
theorem newAccount_cases {d : Directory} {s s' : Accounts} {v : Verified E} {now : DateTime} {id : ℤ} {created : Bool}
    (h : Acme.newAccount E d s v now = .ok (s', id, created)) :
    (∃ a ∈ s.accounts, a.status = .valid ∧ s'.accounts = s.accounts.update a.id (AcmeAccount.touch now)
      AcmeAccount.touch_id) ∨
      ∃ tp contact eab, thumbprint E v.jwk = .ok tp ∧ byThumbprint s.accounts d.caId tp = none ∧
        s'.accounts = s.accounts.insert fun id => ⟨id, d.caId, v.jwk, tp, .valid, contact, eab, now, some now⟩ := by
  obtain ⟨tp, htp, h⟩ := bind_eq_ok.1 h
  cases hb : byThumbprint s.accounts d.caId tp with
  | some existing =>
    simp only [hb] at h
    split_ifs at h with hst
    cases h
    exact Or.inl ⟨existing, (byThumbprint_some hb).1, by simpa using hst, rfl⟩
  | none =>
    simp only [hb] at h
    split_ifs at h
    obtain ⟨contact, _, h⟩ := bind_eq_ok.1 h
    obtain ⟨eabRow, _, h⟩ := bind_eq_ok.1 h
    cases h
    exact Or.inr ⟨tp, _, _, htp, hb, rfl⟩

/-- an update of one row that keeps what identifies the account -/
structure KeepsKey (f : AcmeAccount → AcmeAccount) : Prop where
  id : ∀ a, (f a).id = a.id
  caId : ∀ a, (f a).caId = a.caId
  jwk : ∀ a, (f a).jwk = a.jwk
  thumbprint : ∀ a, (f a).thumbprint = a.thumbprint

theorem keepsKey_touch (now : DateTime) : KeepsKey (AcmeAccount.touch now) :=
  ⟨fun _ => rfl, fun _ => rfl, fun _ => rfl, fun _ => rfl⟩

theorem keepsKey_deactivate : KeepsKey AcmeAccount.deactivate :=
  ⟨fun _ => rfl, fun _ => rfl, fun _ => rfl, fun _ => rfl⟩

theorem keepsKey_setContact (contact : List String) (now : DateTime) : KeepsKey (AcmeAccount.setContact contact now) :=
  ⟨fun _ => rfl, fun _ => rfl, fun _ => rfl, fun _ => rfl⟩

theorem updateAccount_cases {s s' : Accounts} {a : AcmeAccount} {payload : Fields} {now : DateTime}
    (h : Acme.updateAccount E s a payload now = .ok s') :
    ∃ f, ∃ hf : KeepsKey f, s'.accounts = s.accounts.update a.id f hf.id := by
  simp only [Acme.updateAccount] at h
  split_ifs at h
  · cases h
    exact ⟨_, keepsKey_deactivate, rfl⟩
  · split at h
    · cases h
      exact ⟨_, keepsKey_touch now, rfl⟩
    · obtain ⟨contact, _, h⟩ := bind_eq_ok.1 h
      cases h
      exact ⟨_, keepsKey_setContact contact now, rfl⟩

/-- keyChange gives the account a thumbprint that no other account of the CA has -/
theorem changeKey_cases {caId : ℤ} {s s' : Accounts} {a : AcmeAccount} {inner : Verified E}
    (h : changeKey E caId s a inner = .ok s') :
    ∃ tp, thumbprint E inner.jwk = .ok tp ∧ (∀ clash, byThumbprint s.accounts caId tp = some clash → clash.id = a.id) ∧
      s'.accounts = s.accounts.update a.id (AcmeAccount.rollKey inner.jwk tp) AcmeAccount.rollKey_id := by
  simp only [changeKey] at h
  cases hp : inner.payload with
  | none => simp only [hp] at h; cases h
  | some payload =>
    simp only [hp] at h
    split_ifs at h
    obtain ⟨tp, htp, h⟩ := bind_eq_ok.1 h
    cases hb : byThumbprint s.accounts caId tp with
    | none =>
      simp only [hb] at h
      cases h
      exact ⟨tp, htp, by simp [hb], rfl⟩
    | some clash =>
      simp only [hb] at h
      split_ifs at h with hid
      cases h
      refine ⟨tp, htp, ?_, rfl⟩
      rintro c hc
      rw [hb] at hc
      cases hc
      simpa using hid

/-! ## (2) One account per key -/

/-- the thumbprint a key has when it is written canonically -/
def HasThumbprint (E : Env) (jwk : Fields) (tp : Text) : Prop :=
  ∃ key canon, jwkToPublicKey E (.obj jwk) = .ok key ∧ publicKeyToJwk key = .ok canon ∧ thumbprint E canon = .ok tp

theorem hasThumbprint_of_canonical {v : Verified E} (h : Canonical v) {tp : Text} (htp : thumbprint E v.jwk = .ok tp) :
    HasThumbprint E v.jwk tp := by
  obtain ⟨canon, hcanon, hm⟩ := h
  refine ⟨v.key, canon, v.decodes, hcanon, ?_⟩
  rw [← htp, thumbprint, thumbprint, hm]

/-- the key determines the canonical thumbprint -/
theorem HasThumbprint.eq_of_key {jwk jwk' : Fields} {tp tp' : Text} {key : PublicKey} (h : HasThumbprint E jwk tp)
    (h' : HasThumbprint E jwk' tp') (hk : jwkToPublicKey E (.obj jwk) = .ok key)
    (hk' : jwkToPublicKey E (.obj jwk') = .ok key) : tp = tp' := by
  obtain ⟨k, canon, hd, hc, ht⟩ := h
  obtain ⟨k', canon', hd', hc', ht'⟩ := h'
  rw [hk] at hd
  rw [hk'] at hd'
  cases hd
  cases hd'
  rw [hc] at hc'
  cases hc'
  rw [ht] at ht'
  cases ht'
  rfl

structure Inv (E : Env) (t : AccountTable) : Prop where
  canonical : ∀ a ∈ t, HasThumbprint E a.jwk a.thumbprint
  unique : ∀ a ∈ t, ∀ b ∈ t, a.caId = b.caId → a.thumbprint = b.thumbprint → a = b

theorem Inv.oneToOne {t : AccountTable} (h : Inv E t) : OneToOne E t := fun a ha b hb hca _ hka hkb =>
  h.unique a ha b hb hca ((h.canonical a ha).eq_of_key (h.canonical b hb) hka hkb)

/-- an update that keeps what identifies the account keeps the invariant -/
theorem Inv.update_keeps {t : AccountTable} (h : Inv E t) {f : AcmeAccount → AcmeAccount} (hf : KeepsKey f) (k : ℤ) :
    Inv E (t.update k f hf.id) := by
  have hsame : ∀ b ∈ t.update k f hf.id, ∃ a ∈ t, b.id = a.id ∧ b.caId = a.caId ∧ b.jwk = a.jwk ∧
      b.thumbprint = a.thumbprint := by
    intro b hb
    obtain ⟨a, ha, rfl⟩ := Table.mem_update.1 hb
    refine ⟨a, ha, ?_⟩
    split_ifs
    · exact ⟨hf.id a, hf.caId a, hf.jwk a, hf.thumbprint a⟩
    · exact ⟨rfl, rfl, rfl, rfl⟩
  constructor
  · intro b hb
    obtain ⟨a, ha, _, _, hj, ht⟩ := hsame b hb
    rw [hj, ht]
    exact h.canonical a ha
  · intro b hb b' hb' hca htp
    obtain ⟨a, ha, hid, hc, _, ht⟩ := hsame b hb
    obtain ⟨a', ha', hid', hc', _, ht'⟩ := hsame b' hb'
    have : a = a' := h.unique a ha a' ha' (by rw [← hc, ← hc', hca]) (by rw [← ht, ← ht', htp])
    exact Table.eq_of_key hb hb' (by rw [hid, hid', this])

theorem Inv.insert {t : AccountTable} (h : Inv E t) {mk : ℤ → AcmeAccount} {hmk : ∀ k, (mk k).id = k}
    (hcanon : HasThumbprint E (mk t.nextKey).jwk (mk t.nextKey).thumbprint)
    (hnew : ∀ a ∈ t, a.caId = (mk t.nextKey).caId → a.thumbprint ≠ (mk t.nextKey).thumbprint) :
    Inv E (t.insert mk hmk) := by
  constructor
  · intro a ha
    rcases Table.mem_insert.1 ha with ha | rfl
    · exact h.canonical a ha
    · exact hcanon
  · intro a ha b hb hca htp
    rcases Table.mem_insert.1 ha with ha | rfl <;> rcases Table.mem_insert.1 hb with hb | rfl
    · exact h.unique a ha b hb hca htp
    · exact absurd htp (hnew a ha hca)
    · exact absurd htp.symm (hnew b hb hca.symm)
    · rfl

/-- rolling an account onto a thumbprint no other account of its CA has -/
theorem Inv.roll {t : AccountTable} (h : Inv E t) {a : AcmeAccount} (ha : a ∈ t) {jwk : Fields} {tp : Text}
    (hcanon : HasThumbprint E jwk tp) (hfree : ∀ b ∈ t, b.caId = a.caId → b.thumbprint = tp → b.id = a.id) :
    Inv E (t.update a.id (AcmeAccount.rollKey jwk tp) AcmeAccount.rollKey_id) := by
  have hcases : ∀ b ∈ t.update a.id (AcmeAccount.rollKey jwk tp) AcmeAccount.rollKey_id,
      (b ∈ t ∧ b.id ≠ a.id) ∨ (b.id = a.id ∧ b.caId = a.caId ∧ b.jwk = jwk ∧ b.thumbprint = tp) := by
    intro b hb
    obtain ⟨c, hc, rfl⟩ := Table.mem_update.1 hb
    split_ifs with hid
    · have : c = a := Table.eq_of_key hc ha hid
      exact Or.inr ⟨hid, by rw [this]; rfl, rfl, rfl⟩
    · exact Or.inl ⟨hc, hid⟩
  constructor
  · intro b hb
    rcases hcases b hb with ⟨hb, _⟩ | ⟨_, _, hj, ht⟩
    · exact h.canonical b hb
    · rw [hj, ht]; exact hcanon
  · intro b hb b' hb' hca htp
    refine Table.eq_of_key hb hb' ?_
    rcases hcases b hb with ⟨hbt, hid⟩ | ⟨hid, hc, _, ht⟩ <;> rcases hcases b' hb' with ⟨hbt', hid'⟩ | ⟨hid', hc', _, ht'⟩
    · rw [h.unique b hbt b' hbt' hca htp]
    · exact absurd (hfree b hbt (hca.trans hc') (htp.trans ht')) hid
    · exact absurd (hfree b' hbt' (hca.symm.trans hc) (htp.symm.trans ht)) hid'
    · rw [hid, hid']

/-- one request keeps the invariant when a key it binds is written canonically -/
theorem Inv.apply {db db' : Accounts} {s : St} {now : DateTime} {o : Op E} (h : Inv E db.accounts)
    (hc : BindsCanonical s o) (ho : AccountKeys.apply E db now o = .ok db') : Inv E db'.accounts := by
  cases o with
  | newAccount wait d v =>
    simp only [AccountKeys.apply] at ho
    cases hn : Acme.newAccount E d db v now with
    | error e => rw [hn] at ho; cases ho
    | ok r =>
      obtain ⟨s', id, created⟩ := r
      rw [hn] at ho
      cases ho
      rcases newAccount_cases hn with ⟨a, _, _, heq⟩ | ⟨tp, contact, eab, htp, hnone, heq⟩
      · rw [heq]
        exact h.update_keeps (keepsKey_touch now) a.id
      · rw [heq]
        exact h.insert (hasThumbprint_of_canonical hc htp) (byThumbprint_none hnone)
  | updateAccount wait caId accountId payload =>
    obtain ⟨a, _, ho⟩ := bind_eq_ok.1 ho
    split_ifs at ho
    · cases ho; exact h
    · obtain ⟨f, hf, heq⟩ := updateAccount_cases ho
      rw [heq]
      exact h.update_keeps hf a.id
  | keyChange wait caId accountId inner =>
    obtain ⟨a, ha, ho⟩ := bind_eq_ok.1 ho
    obtain ⟨hat, _, hca, _⟩ := accountForKid_ok ha
    obtain ⟨tp, htp, hclash, heq⟩ := changeKey_cases ho
    rw [heq]
    refine h.roll hat (hasThumbprint_of_canonical hc htp) fun b hb hbca hbtp => ?_
    cases hf : byThumbprint db.accounts caId tp with
    | none => exact absurd hbtp (byThumbprint_none hf b hb (hbca.trans hca))
    | some c =>
      obtain ⟨hct, hcca, hctp⟩ := byThumbprint_some hf
      have : b = c := h.unique b hb c hct (by rw [hbca, hca, hcca]) (by rw [hbtp, hctp])
      rw [this]
      exact hclash c hf

/-! ### Accounts that stopped being valid -/

/-- the rows that are not valid are still there, with their status and their key -/
def Retired (t t' : AccountTable) : Prop :=
  ∀ a ∈ t, a.status ≠ .valid → a ∈ t'

theorem Retired.update {t : AccountTable} {a : AcmeAccount} (ha : a ∈ t) (hv : a.status = .valid)
    {f : AcmeAccount → AcmeAccount} {hf : ∀ b, (f b).id = b.id} : Retired t (t.update a.id f hf) := fun b hb hbs =>
  Table.mem_update_of_ne hb fun hid => hbs (by rw [Table.eq_of_key hb ha hid, hv])

/-- a request only ever changes a valid account -/
theorem apply_retired {db db' : Accounts} {now : DateTime} {o : Op E} (ho : AccountKeys.apply E db now o = .ok db') :
    Retired db.accounts db'.accounts := by
  cases o with
  | newAccount wait d v =>
    simp only [AccountKeys.apply] at ho
    cases hn : Acme.newAccount E d db v now with
    | error e => rw [hn] at ho; cases ho
    | ok r =>
      obtain ⟨s', id, created⟩ := r
      rw [hn] at ho
      cases ho
      rcases newAccount_cases hn with ⟨a, ha, hv, heq⟩ | ⟨tp, contact, eab, _, _, heq⟩
      · rw [heq]; exact Retired.update ha hv
      · rw [heq]; exact fun b hb _ => Table.mem_insert.2 (Or.inl hb)
  | updateAccount wait caId accountId payload =>
    obtain ⟨a, ha, ho⟩ := bind_eq_ok.1 ho
    obtain ⟨hat, _, _, hv⟩ := accountForKid_ok ha
    split_ifs at ho
    · cases ho; exact fun b hb _ => hb
    · obtain ⟨f, hf, heq⟩ := updateAccount_cases ho
      rw [heq]; exact Retired.update hat hv
  | keyChange wait caId accountId inner =>
    obtain ⟨a, ha, ho⟩ := bind_eq_ok.1 ho
    obtain ⟨hat, _, _, hv⟩ := accountForKid_ok ha
    obtain ⟨tp, _, _, heq⟩ := changeKey_cases ho
    rw [heq]; exact Retired.update hat hv

/-- **Retired accounts stay.** Whatever happens later, an account that is not valid keeps its row as it is. -/
theorem run_retired (E : Env) (s : St) (ops : List (Op E)) :
    Retired s.db.accounts (run (step E) s ops).db.accounts := by
  refine run_rel (R := fun s s' : St => Retired s.db.accounts s'.db.accounts) (fun _ _ h _ => h)
    (fun h h' a ha hs => h' a (h a ha hs) hs) (fun s o => ?_) s ops
  simp only [step]
  split
  · rename_i db ho
    exact apply_retired ho
  · exact fun _ h _ => h

theorem run_inv {eab : EabTable} {now : DateTime} {ops : List (Op E)}
    (h : Meets (step E) BindsCanonical (init eab now) ops) : Inv E (run (step E) (init eab now) ops).db.accounts := by
  refine run_invariant_of_meets (I := fun s : St => Inv E s.db.accounts) (fun s o hc hs => ?_) ?_ h
  · simp only [step]
    split
    · rename_i db ho
      exact hs.apply hc ho
    · exact hs
  · exact ⟨fun a ha => absurd ha (Table.not_mem_empty a), fun a ha => absurd ha (Table.not_mem_empty a)⟩

/-- **(2) One account per key.** In a run whose newAccount and keyChange requests write their keys canonically, no two
accounts of a CA have the same public key, and the key of an account that stopped being valid is, at the end, the key of
that account alone. -/
theorem account_keys_one_to_one {eab : EabTable} {now : DateTime} {ops : List (Op E)}
    (h : Meets (step E) BindsCanonical (init eab now) ops) :
    OneToOne E (run (step E) (init eab now) ops).db.accounts ∧
      ∀ l m, ops = l ++ m → ∀ a ∈ (run (step E) (init eab now) l).db.accounts, a.status ≠ .valid →
        a ∈ (run (step E) (init eab now) ops).db.accounts ∧
          ∀ b ∈ (run (step E) (init eab now) ops).db.accounts, b.caId = a.caId →
            ∀ key, keyOf E a = .ok key → keyOf E b = .ok key → b = a := by
  have hone := (run_inv h).oneToOne
  refine ⟨hone, ?_⟩
  rintro l m rfl a ha hs
  have hmem : a ∈ (run (step E) (init eab now) (l ++ m)).db.accounts := by
    rw [run_append]
    exact run_retired E _ m a ha hs
  exact ⟨hmem, fun b hb hca key hka hkb => hone b hb a hmem hca key hkb hka⟩

/-! ## (3) Two spellings of one point -/

/-- the P-256 curve: `y² = x³ - 3x + b` modulo `p` -/
def p256 : ℕ := 2 ^ 256 - 2 ^ 224 + 2 ^ 192 + 2 ^ 96 - 1

def p256b : ℕ := 0x5ac635d8aa3a93e7b3ebbd55769886bc651d06b0cc53b0f63bce3c3e27d2604b

def onP256 (x y : ℕ) : Bool := x < p256 && y < p256 && (y * y + 3 * x) % p256 == (x * x * x + p256b) % p256

/-- a library that accepts the points of P-256 and nothing else -/
def curveEnv : Env where
  sha := .echo
  uni := .ascii
  keys := ⟨fun _ _ => .error "Unsupported key.", fun c x y =>
    if c = .p256 ∧ onP256 x y = true then .ok () else .error "Invalid EC key."⟩
  repr := fun _ => "?"
  loads := fun _ => .error (.valueError "Expecting value")
  hmac := fun _ _ _ => []
  decryptSecret := fun _ => .error (.valueError "Invalid token")
  base := "https://ca.example"

def baseX : ℕ := 0x6b17d1f2e12c4247f8bce6e563a440f277037d812deb33a0f4a13945d898c296

def baseY : ℕ := 0x4fe342e2fe1a7f9b8ee7eb4a7c0f9e162bce33576b315ececbb6406837bf51f5

/-- the base point of P-256 as a JWK, with the given text for `x` -/
def baseJwk (x : String) : Fields :=
  [("kty", .str "EC"), ("crv", .str "P-256"), ("x", .str x),
    ("y", .str "T-NC4v4af5uO5-tKfA-eFivOM1drMV7Oy7ZAaDe_UfU")]

/-- the text `public_key_to_jwk` writes -/
def plainX : String := "axfR8uEsQkf4vOblY6RA8ncDfYEt6zOg9KE5RdiYwpY"

/-- the same text with a bit of the last character set that decoding drops -/
def paddedX : String := "axfR8uEsQkf4vOblY6RA8ncDfYEt6zOg9KE5RdiYwpZ"

def plainKey : Verified curveEnv := ⟨none, baseJwk plainX, .ec .p256 baseX baseY, by decide +kernel⟩

def paddedKey : Verified curveEnv := ⟨none, baseJwk paddedX, .ec .p256 baseX baseY, by decide +kernel⟩

theorem plainKey_canonical : Canonical plainKey := ⟨baseJwk plainX, by rfl, rfl⟩

/-- the theorem applies: register the base point, deactivate the account, try to register the point again -/
theorem account_keys_one_to_one_baseKey :
    OneToOne curveEnv (run (step curveEnv) (init Table.empty 0) [.newAccount 0 ⟨1, false⟩ plainKey,
      .updateAccount 1 1 1 [("status", .str "deactivated")], .newAccount 1 ⟨1, false⟩ plainKey]).db.accounts :=
  (account_keys_one_to_one (by exact ⟨plainKey_canonical, trivial, plainKey_canonical, trivial⟩)).1

def twiceRegistered : AccountTable :=
  (run (step curveEnv) (init Table.empty 0)
    [.newAccount 0 ⟨1, false⟩ plainKey, .newAccount 1 ⟨1, false⟩ paddedKey]).db.accounts

/-- **A second spelling of a key is a second account.** The two requests carry the same point of P-256, and the CA ends up
with two accounts for it, although the hash has no collisions. -/
theorem padded_key_registers_twice :
    Function.Injective curveEnv.sha.digest ∧ ¬ OneToOne curveEnv twiceRegistered := by
  refine ⟨Sha256.echo_injective, fun h => ?_⟩
  have htwo : ∃ a ∈ twiceRegistered, ∃ b ∈ twiceRegistered, a.id ≠ b.id ∧ a.caId = b.caId ∧
      keyOf curveEnv a = .ok (.ec .p256 baseX baseY) ∧ keyOf curveEnv b = .ok (.ec .p256 baseX baseY) := by
    decide +kernel
  obtain ⟨a, ha, b, hb, hid, hca, hka, hkb⟩ := htwo
  exact hid (congrArg AcmeAccount.id (h a ha b hb hca _ hka hkb))

end AccountKeys

end Chancery.Acme
