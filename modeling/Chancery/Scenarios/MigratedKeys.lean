/-
Migration to the HSM loses no CA key. Wherever an access fails or the process dies:

(1) every committed row is the one from before, or it is token-backed, its label names exactly one object of the token, that
object holds the key that was in the encrypted blob, and the object has passed the signing check (`Migrated`);
(2) every object that was in the token before is still there, and a token-backed CA keeps its row and its objects to the
end, whatever is cleaned up afterwards.

What carries it is that the token changes only under the label in hand (`migrateStep_token`), and that no label is drawn
twice (`FreshLabels`).
-/
import Mathlib.Tactic
import Chancery.Services.KeyMigration

namespace Chancery.KeyMigration

open Chancery.Core

variable {Key PublicKey : Type}

/-! ## The token -/

theorem Token.labelled_append (t u : Token Key) (l : String) :
    Token.labelled (t ++ u) l = t.labelled l ++ Token.labelled u l := by
  simp [Token.labelled]

theorem Token.labelled_cons (o : TokenObject Key) (t : Token Key) (l : String) :
    Token.labelled (o :: t) l = if o.label = l then o.key :: t.labelled l else t.labelled l := by
  by_cases h : o.label = l <;> simp [Token.labelled, h]

/-- a clean-up leaves the other labels alone -/
theorem Token.labelled_destroyFirst {label l : String} (hl : l ≠ label) (n : ℕ) (t : Token Key) :
    (t.destroyFirst label n).labelled l = t.labelled l := by
  induction t generalizing n with
  | nil => cases n <;> rfl
  | cons o t ih =>
    cases n with
    | zero => rfl
    | succ n =>
      rw [Token.destroyFirst, Token.labelled_cons]
      split_ifs with ho hol hol
      · exact absurd (hol.symm.trans ho) hl
      · exact ih n
      · rw [Token.labelled_cons, if_pos hol, ih]
      · rw [Token.labelled_cons, if_neg hol, ih]

section Migration

variable (K : KeyTools Key PublicKey) (cfg : HashConfig) (label : ℕ → String)

/-- no label is drawn twice, and none that a row or an object has already -/
structure FreshLabels (db : Table CaKeyRow.id) (token : Token Key) : Prop where
  injective : Function.Injective label
  rows : ∀ ca ∈ db, ∀ i, ca.keyLabel ≠ some (label i)
  objects : ∀ o ∈ token, ∀ i, o.label ≠ label i

/-- the row of a CA whose key is in the token -/
def tokenBacked (ca : CaKeyRow) (l : String) : CaKeyRow :=
  { ca with keyBackend := .softhsm, keyLabel := some l, privateKeyEnc := [] }

/-- the object under the label holds the key of the row's blob -/
def Holds (token : Token Key) (ca : CaKeyRow) (l : String) : Prop :=
  ∃ key, K.decryptPrivateKey ca.privateKeyEnc = .ok key ∧ token.labelled l = [key]

/-- a signature of the object under the label was verified against the CA's certificate -/
def Checked (token : Token Key) (ca : CaKeyRow) (l : String) : Prop :=
  ∃ nonce drawn, verifySigningKey K cfg token (tokenBacked ca l) nonce drawn = .ok ()

/-- a chosen CA has been migrated under one of the first `n` labels -/
def Migrated (caId : Option ℤ) (token : Token Key) (n : ℕ) (ca ca' : CaKeyRow) : Prop :=
  softwareKeyed caId ca ∧ ∃ i < n, ca' = tokenBacked ca (label i) ∧ Holds K token ca (label i) ∧
    Checked K cfg token ca (label i)

/-- a row is as it was, or its key is in the token -/
def Kept (caId : Option ℤ) (token : Token Key) (n : ℕ) (ca ca' : CaKeyRow) : Prop :=
  ca' = ca ∨ Migrated K cfg label caId token n ca ca'

/-- the CAs that are left are as they were -/
def Ready (caId : Option ℤ) (stored : Table CaKeyRow.id) (todo : List ℤ) : Prop :=
  todo.Nodup ∧ ∀ id ∈ todo, ∃ ca ∈ stored, ca.id = id ∧ softwareKeyed caId ca

/-- `ca` is the row in hand, as it was -/
def InHand (caId : Option ℤ) (db stored : Table CaKeyRow.id) (ca : CaKeyRow) (todo : List ℤ) : Prop :=
  ca ∈ db ∧ ca ∈ stored ∧ softwareKeyed caId ca ∧ ca.id ∉ todo ∧ Ready caId stored todo

/-- what holds between two accesses, with `l` the label in hand -/
def Position (caId : Option ℤ) (db stored : Table CaKeyRow.id) (token : Token Key) (l : String) : MigratePhase Key → Prop
  | .loop todo => Ready caId stored todo ∧ token.labelled l = []
  | .decrypted ca key todo =>
    InHand caId db stored ca todo ∧ K.decryptPrivateKey ca.privateKeyEnc = .ok key ∧ token.labelled l = []
  | .imported ca' todo =>
    ∃ ca, ca' = { ca with keyBackend := .softhsm, keyLabel := some l } ∧ InHand caId db stored ca todo ∧ Holds K token ca l
  | .verified ca' todo =>
    ∃ ca, ca' = tokenBacked ca l ∧ InHand caId db stored ca todo ∧ Holds K token ca l ∧ Checked K cfg token ca l
  | .audited ca' todo =>
    ∃ ca, ca' = tokenBacked ca l ∧ InHand caId db stored ca todo ∧ Holds K token ca l ∧ Checked K cfg token ca l
  | _ => True

/-- a run over the rows `db` and the token `token` -/
structure Invariant (caId : Option ℤ) (db : Table CaKeyRow.id) (token : Token Key) (s : Migration Key) : Prop where
  rows : db.Evolves (Kept K cfg label caId s.token s.migrated) s.stored
  objects : ∀ l, (∀ i, l ≠ label i) → s.token.labelled l = token.labelled l
  unused : ∀ i, s.migrated < i → s.token.labelled (label i) = []
  position : Position K cfg caId db s.stored s.token (label s.migrated) s.phase

variable {K cfg label} {caId : Option ℤ} {db stored : Table CaKeyRow.id} {token token' : Token Key} {n : ℕ}

/-! ## What depends on one label only -/

theorem verifySigningKey_congr {ca : CaKeyRow} {l : String} (h : token'.labelled l = token.labelled l) (nonce : Blob)
    (drawn : ℕ) : verifySigningKey K cfg token' (tokenBacked ca l) nonce drawn =
      verifySigningKey K cfg token (tokenBacked ca l) nonce drawn := by
  simp only [verifySigningKey, hsmSign, getKey, tokenBacked, h]

theorem Migrated.congr {ca ca' : CaKeyRow} (h : ∀ i < n, token'.labelled (label i) = token.labelled (label i))
    (hm : Migrated K cfg label caId token n ca ca') : Migrated K cfg label caId token' n ca ca' := by
  obtain ⟨hsoft, i, hi, rfl, ⟨key, hdec, hkey⟩, nonce, drawn, hcheck⟩ := hm
  refine ⟨hsoft, i, hi, rfl, ⟨key, hdec, (h i hi).trans hkey⟩, nonce, drawn, ?_⟩
  rw [verifySigningKey_congr (h i hi), hcheck]

theorem Migrated.mono {ca ca' : CaKeyRow} {m : ℕ} (hnm : n ≤ m) (hm : Migrated K cfg label caId token n ca ca') :
    Migrated K cfg label caId token m ca ca' := by
  obtain ⟨hsoft, i, hi, hrest⟩ := hm
  exact ⟨hsoft, i, hi.trans_le hnm, hrest⟩

theorem Kept.id_eq {ca ca' : CaKeyRow} (h : Kept K cfg label caId token n ca ca') : ca'.id = ca.id := by
  rcases h with rfl | ⟨-, i, -, rfl, -⟩ <;> rfl

/-- the columns a commit does not write are those from before -/
theorem Kept.write {ca ca' : CaKeyRow} {l : String} (h : Kept K cfg label caId token n ca ca') :
    (tokenBacked ca l).write ca' = tokenBacked ca l := by
  rcases h with rfl | ⟨-, i, -, rfl, -⟩ <;> rfl

/-! ## Steps -/

/-- an access that commits no row and touches no label but the one in hand -/
theorem Invariant.move {s : Migration Key} (hlabel : Function.Injective label)
    (hs : Invariant K cfg label caId db token s) {audit : List MigrationAudit} {token' : Token Key}
      {phase : MigratePhase Key}
    (htoken : ∀ l, l ≠ label s.migrated → token'.labelled l = s.token.labelled l)
    (hposition : Position K cfg caId db s.stored token' (label s.migrated) phase) :
    Invariant K cfg label caId db token { s with audit, token := token', phase } := by
  refine ⟨hs.rows.imp ?_, fun l hl => ?_, fun i hi => ?_, hposition⟩
  · rintro ca ca' (h | h)
    · exact .inl h
    · exact .inr (h.congr fun i hi => htoken _ fun heq => absurd (hlabel heq) hi.ne)
  · exact (htoken l (hl _)).trans (hs.objects l hl)
  · exact (htoken _ fun heq => absurd (hlabel heq) hi.ne').trans (hs.unused i hi)

/-- the token changes only under the label in hand -/
theorem tornToken_labelled (s : Migration Key) (torn : Torn Key) {l : String} (hl : l ≠ label s.migrated) :
    (s.tornToken label torn).labelled l = s.token.labelled l := by
  unfold Migration.tornToken
  split
  · rw [Token.labelled_append]
    cases torn.leftover with
    | none => simp [Token.labelled]
    | some key => simp [Token.labelled, Ne.symm hl]
  · exact Token.labelled_destroyFirst hl _ _
  · rfl

theorem migrateStep_token (s : Migration Key) (e : MigrateEvent Key) {l : String} (hl : l ≠ label s.migrated) :
    (migrateStep K cfg label s e).token.labelled l = s.token.labelled l := by
  unfold migrateStep
  split_ifs
  · rfl
  cases e with
  | fail err torn => exact tornToken_labelled s torn hl
  | die torn => exact tornToken_labelled s torn hl
  | next nonce drawn =>
    dsimp only
    split
    · rfl
    · split
      · rfl
      · split <;> rfl
    · split_ifs
      · simp [Token.labelled, Ne.symm hl]
      · rfl
    · split <;> rfl
    · rfl
    · rfl
    · rfl
    · exact Token.labelled_destroyFirst hl _ _
    · rfl
    · rfl
    · rfl

theorem position_caught {s : Migration Key} {l : String} {err : PyError} {token : Token Key} :
    Position K cfg caId db s.stored token l (s.phase.caught err) := by
  unfold MigratePhase.caught
  split <;> trivial

/-- the row in hand and those that are left, when the loop reads a row -/
theorem Ready.inHand {id : ℤ} {ca : CaKeyRow} {todo : List ℤ}
    (hrows : db.Evolves (Kept K cfg label caId token n) stored) (h : Ready caId stored (id :: todo))
    (hca : stored.get? id = some ca) : InHand caId db stored ca todo := by
  obtain ⟨hnodup, hleft⟩ := h
  obtain ⟨hmem, rfl⟩ := Table.get?_eq_some.1 hca
  obtain ⟨ca', hmem', hid, hsoft⟩ := hleft ca.id List.mem_cons_self
  obtain rfl := Table.eq_of_key hmem' hmem hid
  obtain ⟨hnotin, hnodup⟩ := List.nodup_cons.1 hnodup
  refine ⟨?_, hmem, hsoft, hnotin, hnodup, fun id hid => hleft id (List.mem_cons_of_mem _ hid)⟩
  have hrel : Option.Rel (Kept K cfg label caId token n) (db.get? ca'.id) (stored.get? ca'.id) :=
    hrows.get? fun a b hab => hab.id_eq
  rw [hca] at hrel
  cases hdb : db.get? ca'.id with
  | none =>
    rw [hdb] at hrel
    cases hrel
  | some a =>
    rw [hdb] at hrel
    cases hrel with
    | some hkept =>
      rcases hkept with rfl | ⟨-, i, -, hmig, -⟩
      · exact Table.mem_of_get? hdb
      · -- a migrated row is not software-keyed
        rw [hmig] at hsoft
        simp [softwareKeyed, tokenBacked] at hsoft

/-- the commit of a migrated CA -/
theorem Invariant.commit {s : Migration Key} (hs : Invariant K cfg label caId db token s) {ca : CaKeyRow} {todo : List ℤ}
    {audit : List MigrationAudit}
    (hin : InHand caId db s.stored ca todo) (hholds : Holds K s.token ca (label s.migrated))
    (hcheck : Checked K cfg s.token ca (label s.migrated)) :
    Invariant K cfg label caId db token
      { s with
        stored := s.stored.update (tokenBacked ca (label s.migrated)).id (tokenBacked ca (label s.migrated)).write
        audit
        migrated := s.migrated + 1
        phase := .loop todo } := by
  obtain ⟨hdb, hmem, hsoft, hnotin, hnodup, hleft⟩ := hin
  have hrows : db.Evolves (Kept K cfg label caId s.token (s.migrated + 1))
      (s.stored.update ca.id (tokenBacked ca (label s.migrated)).write) := by
    refine hs.rows.update_right fun a ha b _ hab => ?_
    by_cases hid : b.id = ca.id
    · obtain rfl : a = ca := Table.eq_of_key ha hdb (hab.id_eq.symm.trans hid)
      rw [if_pos hid, hab.write]
      exact .inr ⟨hsoft, s.migrated, Nat.lt_succ_self _, rfl, hholds, hcheck⟩
    · rw [if_neg hid]
      exact hab.imp id fun h => h.mono (Nat.le_succ _)
  refine ⟨hrows, hs.objects, fun i hi => hs.unused i (Nat.lt_of_succ_lt hi), ⟨hnodup, fun id hid => ?_⟩,
    hs.unused _ (Nat.lt_succ_self _)⟩
  obtain ⟨ca', hmem', rfl, hsoft'⟩ := hleft id hid
  have hne : ca'.id ≠ ca.id := fun heq => hnotin (heq ▸ hid)
  have hmem : ca' ∈ s.stored.update ca.id (tokenBacked ca (label s.migrated)).write := Table.mem_update_of_ne hmem' hne
  exact ⟨ca', hmem, rfl, hsoft'⟩

theorem migrateStep_invariant (hlabel : Function.Injective label) (s : Migration Key) (e : MigrateEvent Key)
    (hs : Invariant K cfg label caId db token s) : Invariant K cfg label caId db token (migrateStep K cfg label s e) := by
  have hposition := hs.position
  by_cases hfinal : s.phase.isFinal = true
  · have hstay : migrateStep K cfg label s e = s := if_pos hfinal
    rwa [hstay]
  simp only [migrateStep, hfinal, Bool.false_eq_true, if_false]
  cases e with
  | fail err torn => exact hs.move hlabel (fun l hl => tornToken_labelled s torn hl) position_caught
  | die torn => exact hs.move hlabel (fun l hl => tornToken_labelled s torn hl) trivial
  | next nonce drawn =>
    obtain ⟨stored, log, token', migrated, phase⟩ := s
    dsimp only at hposition ⊢
    cases phase with
    | loop todo =>
      cases todo with
      | nil => exact hs.move hlabel (fun _ _ => rfl) trivial
      | cons id todo =>
        obtain ⟨hready, hempty⟩ := hposition
        dsimp only
        split
        · exact hs.move hlabel (fun _ _ => rfl) trivial
        · next ca hca =>
          split
          · exact hs.move hlabel (fun _ _ => rfl) trivial
          · next key hkey => exact hs.move hlabel (fun _ _ => rfl) ⟨hready.inHand hs.rows hca, hkey, hempty⟩
    | decrypted ca key todo =>
      obtain ⟨hin, hkey, hempty⟩ := hposition
      dsimp only
      split_ifs
      · refine hs.move hlabel (fun l hl => ?_) ⟨ca, rfl, hin, key, hkey, ?_⟩
        · simp [Token.labelled, Ne.symm hl]
        · rw [Token.labelled_append, hempty]
          simp [Token.labelled]
      · exact hs.move hlabel (fun _ _ => rfl) trivial
    | imported ca' todo =>
      obtain ⟨ca, rfl, hin, hholds⟩ := hposition
      dsimp only
      split
      · exact hs.move hlabel (fun _ _ => rfl) trivial
      · next hverify => exact hs.move hlabel (fun _ _ => rfl) ⟨ca, rfl, hin, hholds, nonce, drawn, hverify⟩
    | verified ca' todo => exact hs.move hlabel (fun _ _ => rfl) hposition
    | audited ca' todo =>
      obtain ⟨ca, rfl, hin, hholds, hcheck⟩ := hposition
      exact hs.commit hin hholds hcheck
    | rolledBack id name err => exact hs.move hlabel (fun l hl => Token.labelled_destroyFirst hl _ _) trivial
    | _ => exact hs.move hlabel (fun _ _ => rfl) trivial

/-! ## Runs -/

theorem start_invariant (hfresh : FreshLabels label db token) (opts : MigrateOptions) :
    Invariant K cfg label opts.caId db token (Migration.start opts db token) := by
  have hunused : ∀ i, token.labelled (label i) = [] := by
    intro i
    simp only [Token.labelled, List.map_eq_nil_iff, List.filter_eq_nil_iff, decide_eq_true_eq]
    exact fun o ho => hfresh.objects o ho i
  refine ⟨Table.Evolves.refl (fun _ => .inl rfl) _, fun _ _ => rfl, fun i _ => hunused i, ?_⟩
  simp only [Migration.start]
  split_ifs
  · trivial
  · trivial
  · trivial
  · trivial
  · refine ⟨⟨?_, fun id hid => ?_⟩, hunused 0⟩
    · exact db.nodup_keys.sublist (List.filter_sublist.map _)
    · obtain ⟨ca, hca, rfl⟩ := List.mem_map.1 hid
      obtain ⟨hmem, hsoft⟩ := List.mem_filter.1 hca
      exact ⟨ca, hmem, rfl, hsoft⟩

/-- a token-backed CA and the objects under its label -/
def StaysBacked (token : Token Key) (ca : CaKeyRow) (s : Migration Key) : Prop :=
  ca ∈ s.stored ∧ ∀ l, ca.keyLabel = some l → s.token.labelled l = token.labelled l

/-- the label in hand is not the one of a committed token-backed row -/
theorem Invariant.keyLabel_ne {s : Migration Key} (hfresh : FreshLabels label db token)
    (hs : Invariant K cfg label caId db token s) {ca : CaKeyRow} (hca : ca ∈ s.stored) :
    ca.keyLabel ≠ some (label s.migrated) := by
  have hrel := hs.rows.get? (k := ca.id) fun a b hab => hab.id_eq
  rw [Table.get?_key hca] at hrel
  cases hdb : db.get? ca.id with
  | none =>
    rw [hdb] at hrel
    cases hrel
  | some a =>
    rw [hdb] at hrel
    cases hrel with
    | some hkept =>
      rcases hkept with rfl | ⟨-, i, hi, rfl, -⟩
      · exact hfresh.rows _ (Table.mem_of_get? hdb) _
      · intro heq
        exact absurd (hfresh.injective (Option.some.inj heq)) hi.ne

theorem migrateStep_stored {s : Migration Key} (e : MigrateEvent Key) (hs : Invariant K cfg label caId db token s)
    {ca : CaKeyRow}
    (hbacked : ca.keyBackend = .softhsm) (hca : ca ∈ s.stored) : ca ∈ (migrateStep K cfg label s e).stored := by
  have hposition := hs.position
  obtain ⟨stored, log, token', migrated, phase⟩ := s
  unfold migrateStep
  split_ifs
  · exact hca
  cases e with
  | fail err torn => exact hca
  | die torn => exact hca
  | next nonce drawn =>
    dsimp only at hca hposition ⊢
    split
    · exact hca
    · split
      · exact hca
      · split <;> exact hca
    · split_ifs <;> exact hca
    · split <;> exact hca
    · exact hca
    · obtain ⟨row, rfl, hin, -⟩ := hposition
      have hne : ca.id ≠ row.id := by
        intro heq
        obtain rfl := Table.eq_of_key hca hin.2.1 heq
        have hsoft := hin.2.2.1
        simp [softwareKeyed, hbacked] at hsoft
      have hmem : ca ∈ stored.update row.id (tokenBacked row (label migrated)).write := Table.mem_update_of_ne hca hne
      exact hmem
    · exact hca
    · exact hca
    · exact hca
    · exact hca
    · exact hca

/-- **Migration to the HSM loses no CA key.** After any accesses, ended or not, of a command over any rows and any token:
every committed row is as it was, or names an object that holds its key and has passed the signing check; every object of
the token is still there, unless the command made it; and a committed token-backed CA keeps its row and the objects under
its label, whatever comes next. -/
theorem migration_keeps_keys (K : KeyTools Key PublicKey) (cfg : HashConfig) (label : ℕ → String) (opts : MigrateOptions)
    (db : Table CaKeyRow.id) (token : Token Key) (hfresh : FreshLabels label db token) (events : List (MigrateEvent Key)) :
    let s := run (migrateStep K cfg label) (Migration.start opts db token) events
    db.Evolves (Kept K cfg label opts.caId s.token s.migrated) s.stored ∧
      (∀ l, (∀ i, l ≠ label i) → s.token.labelled l = token.labelled l) ∧
      ∀ ca ∈ s.stored, ca.keyBackend = .softhsm → ∀ more,
        StaysBacked s.token ca (run (migrateStep K cfg label) s more) := by
  intro s
  have hinv : Invariant K cfg label opts.caId db token s :=
    run_invariant (migrateStep_invariant hfresh.injective) (start_invariant hfresh opts) events
  refine ⟨hinv.rows, hinv.objects, fun ca hca hbacked more => ?_⟩
  have hstay : ∀ (s' : Migration Key) (e : MigrateEvent Key),
      Invariant K cfg label opts.caId db token s' ∧ StaysBacked s.token ca s' →
      Invariant K cfg label opts.caId db token (migrateStep K cfg label s' e) ∧
        StaysBacked s.token ca (migrateStep K cfg label s' e) := by
    rintro s' e ⟨hs', hmem, hobjects⟩
    refine ⟨migrateStep_invariant hfresh.injective s' e hs', migrateStep_stored e hs' hbacked hmem, fun l hl => ?_⟩
    have hne : l ≠ label s'.migrated := by
      rintro rfl
      exact hs'.keyLabel_ne hfresh hmem hl
    exact (migrateStep_token s' e hne).trans (hobjects l hl)
  exact (run_invariant hstay ⟨hinv, hca, fun _ _ => rfl⟩ more).2

end Migration

/-! ## A root and its label -/

/-- a key of one byte, which signs by writing itself before the nonce -/
def byteTools : KeyTools UInt8 UInt8 where
  decryptPrivateKey blob := match blob with | [key] => .ok key | _ => .error (.other "InvalidToken")
  importable _ := true
  loadPublicKey pem := if pem = "cert 7" then .ok 7 else .error (.valueError "Unable to load PEM file.")
  sign key _ _ _ nonce := .ok (key :: nonce)
  verify key _ _ signature nonce := if signature = key :: nonce then .ok () else .error (.other "InvalidSignature")

def countedLabel (i : ℕ) : String := String.ofList ("ca-".toList ++ List.replicate i '0')

def rootCas : Table CaKeyRow.id :=
  ⟨[⟨1, "root", "EC", 256, "cert 7", .software, none, [7]⟩], List.pairwise_singleton _ _⟩

def onlyRoot : MigrateOptions := ⟨some 1, false, true, true, false⟩

theorem freshLabels_rootCas : FreshLabels countedLabel rootCas ([] : Token UInt8) where
  injective := by
    intro i j h
    have hlist : "ca-".toList ++ List.replicate i '0' = "ca-".toList ++ List.replicate j '0' := String.ofList_injective h
    simpa using congrArg List.length hlist
  rows := by
    intro ca hca i
    obtain rfl := List.mem_singleton.1 hca
    simp
  objects := by simp

/-- the root is migrated -/
theorem migration_keeps_keys_root :
    let s := run (migrateStep byteTools ⟨"legacy", "sha256"⟩ countedLabel) (Migration.start onlyRoot rootCas [])
      (List.replicate 5 (.next [1, 2] 0))
    s.token = [⟨"ca-", 7⟩] ∧ s.stored.rows = [⟨1, "root", "EC", 256, "cert 7", .softhsm, some "ca-", []⟩] ∧
      rootCas.Evolves (Kept byteTools ⟨"legacy", "sha256"⟩ countedLabel (some 1) s.token s.migrated) s.stored :=
  ⟨by decide +kernel, by decide +kernel,
    (migration_keeps_keys byteTools ⟨"legacy", "sha256"⟩ countedLabel onlyRoot rootCas [] freshLabels_rootCas _).1⟩

end Chancery.KeyMigration
