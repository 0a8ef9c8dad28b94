/-
The chain a CA is served with (chain_pems of app/services/ca_service.py, is_usable of app/models/ca_certificate.py).

`walk` is the loop: from a CA to its parent, at the CA the alternate belongs to with the alternate's certificate, and on
from a cross-certificate to its issuer. It runs on fuel. `walk_eq` says which CAs it lists: those that are followed
(`route`), each with the certificate it is served with (`served`).
-/
import Mathlib.Tactic
import Chancery.Core.Follow
import Chancery.Services.CaService

namespace Chancery.Pki

open Chancery.Core

/-- `ca.parent` -/
def CaRow.parent (ca : CaRow) (s : Db) : Option CaRow := ca.parentId.bind s.cas.get?

/-- `row.issuer` -/
def CaCertRow.issuer (row : CaCertRow) (s : Db) : Option CaRow := row.issuerCaId.bind s.cas.get?

/-- `is_usable` -/
def CaCertRow.isUsable (row : CaCertRow) (s : Db) : Bool :=
  if row.approvalStatus ≠ .approved then false
  else if row.kind = .cross ∧ (row.issuer s).any (·.isRevoked) then false
  else true

def notUsable : PyError :=
  .valueError "That alternate certificate is not usable (pending approval or issued by a revoked CA)."

/-- the loop of `chain_pems`, at most `n` turns -/
def walk (s : Db) (via : Option CaCertRow) : ℕ → List ℤ → Option CaRow → Option (List X509)
  | _, _, none => some []
  | 0, _, some _ => none
  | n + 1, seen, some current =>
    if current.id ∈ seen then some []
    else
      match via with
      | some row =>
        if row.caId = current.id then
          if row.kind = .cross then (walk s via n (current.id :: seen) (row.issuer s)).map (row.certificate :: ·)
          else (walk s via n (current.id :: seen) (current.parent s)).map (row.certificate :: ·)
        else (walk s via n (current.id :: seen) (current.parent s)).map (current.certificate :: ·)
      | none => (walk s via n (current.id :: seen) (current.parent s)).map (current.certificate :: ·)

/-- `chain_pems` -/
def chainPems (s : Db) (n : ℕ) (ca : CaRow) (via : Option CaCertRow) : Except PyError (Option (List X509)) :=
  if via.any (!·.isUsable s) then .error notUsable else .ok (walk s via n [] (some ca))

/-! ## What the loop lists -/

/-- the certificate a CA is served with -/
def served (via : Option CaCertRow) (ca : CaRow) : X509 :=
  match via with
  | some row => if row.caId = ca.id then row.certificate else ca.certificate
  | none => ca.certificate

/-- the CA the loop goes on with -/
def onward (s : Db) (via : Option CaCertRow) (ca : CaRow) : Option CaRow :=
  match via with
  | some row => if row.caId = ca.id ∧ row.kind = .cross then row.issuer s else ca.parent s
  | none => ca.parent s

/-- the CAs the loop lists -/
def route (s : Db) (via : Option CaCertRow) (n : ℕ) (ca : CaRow) : Option (List CaRow) :=
  follow CaRow.id (onward s via) n [] (some ca)

variable {s : Db} {via : Option CaCertRow} {n : ℕ} {ca : CaRow}

theorem walk_eq (n : ℕ) (seen : List ℤ) (ca? : Option CaRow) :
    walk s via n seen ca? = (follow CaRow.id (onward s via) n seen ca?).map (List.map (served via)) := by
  induction n generalizing seen ca? with
  | zero => cases ca? <;> rfl
  | succ n ih =>
    cases ca? with
    | none => rfl
    | some ca =>
      unfold walk follow
      by_cases hseen : ca.id ∈ seen
      · rw [if_pos hseen, if_pos hseen]
        rfl
      rw [if_neg hseen, if_neg hseen, Option.map_map]
      have hmap : ∀ (c : X509) (x : Option (List CaRow)), served via ca = c →
          (x.map (List.map (served via))).map (c :: ·) = x.map (List.map (served via) ∘ (ca :: ·)) := by
        rintro c x rfl
        rw [Option.map_map]
        rfl
      cases via with
      | none =>
        dsimp only
        rw [ih]
        exact hmap _ _ rfl
      | some row =>
        by_cases hid : row.caId = ca.id
        · have hserved : served (some row) ca = row.certificate := if_pos hid
          by_cases hcross : row.kind = .cross
          · have honward : onward s (some row) ca = row.issuer s := if_pos ⟨hid, hcross⟩
            simp only [if_pos hid, if_pos hcross]
            rw [ih, hmap _ _ hserved, honward]
          · have honward : onward s (some row) ca = ca.parent s := if_neg fun h => hcross h.2
            simp only [if_pos hid, if_neg hcross]
            rw [ih, hmap _ _ hserved, honward]
        · have hserved : served (some row) ca = ca.certificate := if_neg hid
          have honward : onward s (some row) ca = ca.parent s := if_neg fun h => hid h.1
          simp only [if_neg hid]
          rw [ih, hmap _ _ hserved, honward]

theorem chainPems_eq (h : ∀ row, via = some row → row.isUsable s = true) :
    chainPems s n ca via = .ok ((route s via n ca).map (List.map (served via))) := by
  have husable : ¬via.any (!·.isUsable s) = true := by
    cases via with
    | none => exact Bool.false_ne_true
    | some row => simp [h row rfl]
  rw [chainPems, if_neg husable, walk_eq, route]

theorem onward_mem {b : CaRow} (h : onward s via ca = some b) : s.cas.get? b.id = some b := by
  have hget : ∀ {id : Option ℤ}, id.bind s.cas.get? = some b → s.cas.get? b.id = some b := by
    intro id hid
    obtain ⟨i, _, hi⟩ := Option.bind_eq_some_iff.1 hid
    rwa [Table.key_of_get? hi]
  unfold onward at h
  split at h
  · split_ifs at h
    · exact hget h
    · exact hget h
  · exact hget h

theorem leadsTo_mem {b : CaRow} (hca : s.cas.get? ca.id = some ca) (h : LeadsTo (onward s via) ca b) :
    s.cas.get? b.id = some b := by
  cases h with
  | refl => exact hca
  | tail _ hb => exact onward_mem hb

/-- more turns than CAs are enough -/
theorem route_isSome (hca : s.cas.get? ca.id = some ca) (hn : s.cas.rows.length < n) : (route s via n ca).isSome := by
  have hkey : ∀ {b : CaRow}, s.cas.get? b.id = some b → b.id ∈ s.cas.rows.map (·.id) := fun hb =>
    List.mem_map_of_mem (Table.mem_of_get? hb)
  have hlength : ((s.cas.rows.map (·.id)).filter (· ∉ ([] : List ℤ))).length < n := by simpa using hn
  refine follow_isSome (fun _ _ hb => hkey (onward_mem hb)) (fun a ha => ?_) hlength
  exact hkey (Option.some.inj ha ▸ hca)

/-- the CAs of the route are those that are reached -/
theorem mem_route {cas : List CaRow} (hca : s.cas.get? ca.id = some ca) (h : route s via n ca = some cas) {b : CaRow} :
    b ∈ cas ↔ LeadsTo (onward s via) ca b :=
  mem_follow h fun _ _ hb hc hid => Table.eq_of_key (Table.mem_of_get? (leadsTo_mem hca hb))
    (Table.mem_of_get? (leadsTo_mem hca hc)) hid

end Chancery.Pki
