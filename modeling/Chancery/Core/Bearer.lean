/-
Bearer secrets, and the ledger of what was handed out.

A token is a prefix, a public id, an underscore and a secret. The id finds its row, and the secret is compared by its
digest. The ledger is kept by somebody who only sees the answers: for each row the text that was shown, its end, whether
it was taken back, and when it was last accepted.

`find_eq_some`: as long as each row carries what its grant says (`Keeps`) and the digest is injective, a text is accepted
exactly when it is in the ledger, not taken back and not over. `Keeps.shown`, `Keeps.revoked` and `Keeps.used` carry that
along. Nothing here knows the repository.
-/
import Mathlib.Tactic
import Chancery.Core.Py

namespace Chancery.Core.Bearer

/-! ## Texts -/

def present (pre tokenId secret : Text) : Text := pre ++ (tokenId ++ '_' :: secret)

/-- the id and the secret: the first underscore separates them -/
def split (pre presented : Text) : Option (Text × Text) :=
  if pre.isPrefixOf presented then
    let rest := presented.drop pre.length
    let tokenId := rest.takeWhile (· != '_')
    let secret := (rest.dropWhile (· != '_')).drop 1
    if tokenId = [] ∨ secret = [] then none else some (tokenId, secret)
  else none

theorem split_present (pre : Text) {tokenId secret : Text} (hid : '_' ∉ tokenId) (hne : tokenId ≠ [])
    (hsecret : secret ≠ []) :
    split pre (present pre tokenId secret) = some (tokenId, secret) := by
  have hprefix : pre.isPrefixOf (present pre tokenId secret) = true := by
    rw [List.isPrefixOf_iff_prefix]
    exact List.prefix_append _ _
  have hplain : ∀ c ∈ tokenId, (c != '_') = true := fun c hc => bne_iff_ne.2 fun h => hid (h ▸ hc)
  have hstop : ('_' :: secret).takeWhile (· != '_') = [] := rfl
  have htake : (tokenId ++ '_' :: secret).takeWhile (· != '_') = tokenId := by
    rw [List.takeWhile_append_of_pos hplain, hstop, List.append_nil]
  have hdrop : (tokenId ++ '_' :: secret).dropWhile (· != '_') = '_' :: secret := by
    rw [List.dropWhile_append_of_pos hplain]
    rfl
  have hrest : (present pre tokenId secret).drop pre.length = tokenId ++ '_' :: secret := List.drop_left
  simp only [split, if_pos hprefix, hrest, htake, hdrop, List.drop_succ_cons, List.drop_zero]
  exact if_neg (not_or.2 ⟨hne, hsecret⟩)

theorem present_of_split {pre presented tokenId secret : Text} (h : split pre presented = some (tokenId, secret)) :
    presented = present pre tokenId secret ∧ '_' ∉ tokenId ∧ tokenId ≠ [] ∧ secret ≠ [] := by
  unfold split at h
  split_ifs at h with hprefix
  obtain ⟨rest, rfl⟩ := List.isPrefixOf_iff_prefix.1 hprefix
  simp only [List.drop_left] at h
  split_ifs at h with hempty
  obtain ⟨rfl, rfl⟩ := Prod.mk.inj (Option.some.inj h)
  rw [not_or] at hempty
  have hid : '_' ∉ rest.takeWhile (· != '_') := fun hmem => by simpa using List.mem_takeWhile_imp hmem
  refine ⟨?_, hid, hempty.1, hempty.2⟩
  have hsplit := List.takeWhile_append_dropWhile (p := (· != '_')) (l := rest)
  cases hdrop : rest.dropWhile (· != '_') with
  | nil => exact absurd (by rw [hdrop]; rfl) hempty.2
  | cons c tail =>
    have hc : c = '_' := by
      have hhead := List.head?_dropWhile_not (· != '_') rest
      rw [hdrop] at hhead
      simpa using hhead
    rw [hdrop, hc] at hsplit
    rw [present, List.drop_succ_cons, List.drop_zero, hsplit]

/-! ## Rows and grants -/

/-- how a row of a table of tokens is read -/
class Credential (α : Type) where
  key : α → ℤ
  /-- the account it stands for, if it stands for one -/
  holder : α → Option ℤ
  tokenId : α → Text
  tokenHash : α → Text
  expiresAt : α → DateTime
  lastUsedAt : α → Option DateTime
  revoked : α → Bool

open Credential

/-- what the ledger has about a token -/
structure Grant where
  key : ℤ
  holder : Option ℤ
  plaintext : Text
  expiresAt : DateTime
  revoked : Bool
  /-- the last time it was accepted -/
  usedAt : Option DateTime

def Grant.Live (now : DateTime) (g : Grant) : Prop := g.revoked = false ∧ now < g.expiresAt

/-- what an answer tells -/
inductive Event
  | shown (key : ℤ) (holder : Option ℤ) (plaintext : Text) (expiresAt : DateTime)
  | revoked (key : ℤ)
  | used (key : ℤ) (now : DateTime)

def Grant.revoke (g : Grant) : Grant := { g with revoked := true }

def Grant.use (now : DateTime) (g : Grant) : Grant := { g with usedAt := some now }

/-- the grant with this key -/
def amend (k : ℤ) (f : Grant → Grant) (ledger : List Grant) : List Grant :=
  ledger.map fun g => if g.key = k then f g else g

def note (ledger : List Grant) : Event → List Grant
  | .shown k holder plaintext expiresAt => ledger ++ [⟨k, holder, plaintext, expiresAt, false, none⟩]
  | .revoked k => amend k Grant.revoke ledger
  | .used k now => amend k (Grant.use now) ledger

variable {α : Type} [Credential α] {hash : Text → Text} {pre : Text} {throttle now : DateTime}

def isValid (now : DateTime) (row : α) : Bool := !revoked row && decide (now < expiresAt row)

/-- the row that a presented text opens -/
def find (hash : Text → Text) (pre : Text) (now : DateTime) (rows : List α) (presented : Text) : Option α :=
  (split pre presented).bind fun p =>
    (rows.find? fun row => tokenId row == p.1).filter fun row => isValid now row && tokenHash row == hash p.2

/-- the last use is recorded, up to the throttle -/
def Recorded (throttle : DateTime) (recorded : Option DateTime) : Option DateTime → Prop
  | none => recorded = none
  | some used => ∃ l, recorded = some l ∧ l ≤ used ∧ used - l < throttle

/-- the row carries what the grant says; whether it was taken back, if `strict` -/
structure Carries (strict : Prop) (hash : Text → Text) (pre : Text) (throttle : DateTime) (row : α) (g : Grant) : Prop where
  key_eq : key row = g.key
  holder_eq : holder row = g.holder
  plaintext : ∃ secret, g.plaintext = present pre (tokenId row) secret ∧ tokenHash row = hash secret ∧ secret ≠ []
  shape : '_' ∉ tokenId row ∧ tokenId row ≠ []
  expiry : expiresAt row = g.expiresAt
  back : strict → revoked row = g.revoked
  use : Recorded throttle (lastUsedAt row) g.usedAt

/-- the rows carry the ledger, and no two of them have one id -/
structure Keeps (strict : Prop) (hash : Text → Text) (pre : Text) (throttle now : DateTime) (rows : List α)
    (ledger : List Grant) : Prop where
  carries : List.Forall₂ (Carries strict hash pre throttle) rows ledger
  distinct : (rows.map (tokenId (α := α))).Nodup
  past : ∀ g ∈ ledger, ∀ used ∈ g.usedAt, used ≤ now

/-- the columns that never change -/
structure Same (row row' : α) : Prop where
  key_eq : key row' = key row
  holder_eq : holder row' = holder row
  tokenId_eq : tokenId row' = tokenId row
  tokenHash_eq : tokenHash row' = tokenHash row
  expiresAt_eq : expiresAt row' = expiresAt row

/-- the time of the last use, recorded at most once in each throttle -/
def touched (throttle now : DateTime) (recorded : Option DateTime) : Option DateTime :=
  if recorded.any fun last => decide (now - last < throttle) then recorded else some now

theorem recorded_touched {recorded used : Option DateTime} (hpos : 0 < throttle) (h : Recorded throttle recorded used)
    (hpast : ∀ u ∈ used, u ≤ now) : Recorded throttle (touched throttle now recorded) (some now) := by
  unfold touched
  split_ifs with hrecent
  · cases used with
    | none =>
      have hnone : recorded = none := h
      rw [hnone] at hrecent
      cases hrecent
    | some u =>
      obtain ⟨l, rfl, hle, -⟩ := h
      have hl : now - l < throttle := by simpa using hrecent
      exact ⟨l, rfl, le_trans hle (hpast u rfl), hl⟩
  · exact ⟨now, rfl, le_refl now, by rwa [sub_self]⟩

section Keeps

variable {strict : Prop} {rows : List α} {ledger : List Grant}

theorem Keeps.grant_of_row (h : Keeps strict hash pre throttle now rows ledger) {row : α} (hrow : row ∈ rows) :
    ∃ g ∈ ledger, Carries strict hash pre throttle row g := by
  obtain ⟨k, hk, rfl⟩ := List.mem_iff_getElem.1 hrow
  have hlen := h.carries.length_eq
  exact ⟨ledger[k], List.getElem_mem _, h.carries.get hk (hlen ▸ hk)⟩

theorem Keeps.row_of_grant (h : Keeps strict hash pre throttle now rows ledger) {g : Grant} (hg : g ∈ ledger) :
    ∃ row ∈ rows, Carries strict hash pre throttle row g := by
  obtain ⟨k, hk, rfl⟩ := List.mem_iff_getElem.1 hg
  have hlen := h.carries.length_eq
  exact ⟨rows[k], List.getElem_mem _, h.carries.get (hlen ▸ hk) hk⟩

theorem Keeps.find?_tokenId (h : Keeps strict hash pre throttle now rows ledger) {row : α} (hrow : row ∈ rows) :
    (rows.find? fun r => tokenId r == tokenId row) = some row := by
  cases hfind : rows.find? fun r => tokenId r == tokenId row with
  | none => exact absurd (beq_self_eq_true _) (List.find?_eq_none.1 hfind row hrow)
  | some r =>
    have hid : tokenId r = tokenId row := by simpa using List.find?_some hfind
    rw [List.inj_on_of_nodup_map h.distinct (List.mem_of_find?_eq_some hfind) hrow hid]

/-- **What is accepted.** The text that was shown for the row, not taken back and not over. -/
theorem find_eq_some (hinj : Function.Injective hash) (h : Keeps True hash pre throttle now rows ledger) {presented : Text}
    {row : α} : find hash pre now rows presented = some row ↔
      row ∈ rows ∧ ∃ g ∈ ledger, Carries True hash pre throttle row g ∧ g.plaintext = presented ∧ g.Live now := by
  constructor
  · intro hfind
    obtain ⟨⟨tokenId', secret⟩, hsplit, hrow⟩ := Option.bind_eq_some_iff.1 hfind
    obtain ⟨hrow, hgood⟩ := Option.filter_eq_some_iff.1 hrow
    have hmem := List.mem_of_find?_eq_some hrow
    have hid : tokenId row = tokenId' := by simpa using List.find?_some hrow
    obtain ⟨g, hg, hcarries⟩ := h.grant_of_row hmem
    obtain ⟨shownSecret, htext, hhash, -⟩ := hcarries.plaintext
    simp only [isValid, Bool.and_eq_true, Bool.not_eq_true', decide_eq_true_eq, beq_iff_eq] at hgood
    refine ⟨hmem, g, hg, hcarries, ?_, hcarries.back trivial ▸ hgood.1.1, hcarries.expiry ▸ hgood.1.2⟩
    rw [htext, (present_of_split hsplit).1, hid, hinj (hhash.symm.trans hgood.2)]
  · rintro ⟨hmem, g, hg, hcarries, rfl, hback, hover⟩
    obtain ⟨secret, htext, hhash, hsecret⟩ := hcarries.plaintext
    have hsplit := split_present pre hcarries.shape.1 hcarries.shape.2 hsecret
    have hvalid : isValid now row = true := by
      rw [isValid, hcarries.back trivial, hback, hcarries.expiry]
      simpa using hover
    rw [find, htext, hsplit, Option.bind_some, h.find?_tokenId hmem, Option.filter_some, if_pos]
    rw [hvalid, hhash]
    exact beq_self_eq_true _

/-- a text is accepted exactly when the ledger has it -/
theorem find_isSome (hinj : Function.Injective hash) (h : Keeps True hash pre throttle now rows ledger) {presented : Text} :
    (find hash pre now rows presented).isSome = true ↔ ∃ g ∈ ledger, g.plaintext = presented ∧ g.Live now := by
  rw [Option.isSome_iff_exists]
  constructor
  · rintro ⟨row, hrow⟩
    obtain ⟨-, g, hg, -, hlive⟩ := (find_eq_some hinj h).1 hrow
    exact ⟨g, hg, hlive⟩
  · rintro ⟨g, hg, hlive⟩
    obtain ⟨row, hrow, hcarries⟩ := h.row_of_grant hg
    exact ⟨row, (find_eq_some hinj h).2 ⟨hrow, g, hg, hcarries, hlive⟩⟩

/-! ## Steps -/

theorem keeps_nil : Keeps strict hash pre throttle now ([] : List α) [] :=
  ⟨.nil, List.nodup_nil, fun _ hg => absurd hg List.not_mem_nil⟩

theorem Keeps.later (h : Keeps strict hash pre throttle now rows ledger) {now' : DateTime} (hle : now ≤ now') :
    Keeps strict hash pre throttle now' rows ledger :=
  ⟨h.carries, h.distinct, fun g hg used hused => le_trans (h.past g hg used hused) hle⟩

theorem Keeps.shown (h : Keeps strict hash pre throttle now rows ledger) (row : α) (secret : Text)
    (hback : revoked row = false)
    (huse : lastUsedAt row = none) (hid : '_' ∉ tokenId row) (hne : tokenId row ≠ []) (hsecret : secret ≠ [])
    (hhash : tokenHash row = hash secret) (hfresh : tokenId row ∉ rows.map (tokenId (α := α))) :
    Keeps strict hash pre throttle now (rows ++ [row])
      (note ledger (.shown (key row) (holder row) (present pre (tokenId row) secret) (expiresAt row))) := by
  have hcarries : Carries strict hash pre throttle row
      ⟨key row, holder row, present pre (tokenId row) secret, expiresAt row, false, none⟩ :=
    ⟨rfl, rfl, ⟨secret, rfl, hhash, hsecret⟩, ⟨hid, hne⟩, rfl, fun _ => hback, huse⟩
  refine ⟨List.rel_append h.carries (.cons hcarries .nil), ?_, ?_⟩
  · rw [List.map_append, List.map_singleton]
    exact h.distinct.append (List.nodup_singleton _) (List.disjoint_singleton.2 hfresh)
  · intro g hg used hused
    rcases List.mem_append.1 hg with hg | hg
    · exact h.past g hg used hused
    · rw [List.mem_singleton.1 hg] at hused
      cases hused

/-- one row and its grant change, within what they carry -/
theorem Keeps.amend (h : Keeps strict hash pre throttle now rows ledger) (k : ℤ) {f : α → α} {fg : Grant → Grant}
    (hf : ∀ row, Same row (f row)) (hg : ∀ g : Grant, (fg g).key = g.key ∧ (fg g).holder = g.holder ∧
      (fg g).plaintext = g.plaintext ∧ (fg g).expiresAt = g.expiresAt)
    (hback : strict → ∀ row g, revoked row = g.revoked → revoked (f row) = (fg g).revoked)
    (huse : ∀ row g, g ∈ ledger → Recorded throttle (lastUsedAt row) g.usedAt →
      Recorded throttle (lastUsedAt (f row)) (fg g).usedAt)
    (hpast : ∀ g ∈ ledger, ∀ used ∈ (fg g).usedAt, used ≤ now) :
    Keeps strict hash pre throttle now (rows.map fun row => if key row = k then f row else row)
      (Bearer.amend k fg ledger) := by
  refine ⟨?_, ?_, ?_⟩
  · have hflip : List.Forall₂ (fun g row => g ∈ ledger ∧ Carries strict hash pre throttle row g) ledger rows :=
      (List.forall₂_and_left ledger rows).2 ⟨fun _ hg => hg, h.carries.flip⟩
    have hboth : List.Forall₂ (fun row g => Carries strict hash pre throttle row g ∧ g ∈ ledger) rows ledger :=
      hflip.flip.imp fun _ _ h => ⟨h.2, h.1⟩
    refine List.forall₂_map_left_iff.2 (List.forall₂_map_right_iff.2 (hboth.imp fun row g ⟨hcarries, hmem⟩ => ?_))
    by_cases hk : key row = k
    · rw [if_pos hk, if_pos (hcarries.key_eq ▸ hk)]
      obtain ⟨hkey, hholder, hid, hhash, hexpires⟩ := hf row
      obtain ⟨hgkey, hgholder, hgtext, hgexpires⟩ := hg g
      refine ⟨by rw [hkey, hgkey, hcarries.key_eq], by rw [hholder, hgholder, hcarries.holder_eq], ?_, ?_,
        by rw [hexpires, hgexpires, hcarries.expiry],
        fun hs => hback hs row g (hcarries.back hs), huse row g hmem hcarries.use⟩
      · rw [hgtext, hid, hhash]
        exact hcarries.plaintext
      · rw [hid]
        exact hcarries.shape
    · rw [if_neg hk, if_neg fun hgk => hk (hcarries.key_eq.trans hgk)]
      exact hcarries
  · have hids : (rows.map fun row => if key row = k then f row else row).map (tokenId (α := α)) =
        rows.map (tokenId (α := α)) := by
      rw [List.map_map]
      refine List.map_congr_left fun row _ => ?_
      rw [Function.comp_apply]
      split_ifs
      · exact (hf row).tokenId_eq
      · rfl
    rw [hids]
    exact h.distinct
  · intro g' hg' used hused
    obtain ⟨g, hmem, rfl⟩ := List.mem_map.1 hg'
    split_ifs at hused
    · exact hpast g hmem used hused
    · exact h.past g hmem used hused

theorem Keeps.revoked (h : Keeps strict hash pre throttle now rows ledger) (k : ℤ) {f : α → α}
    (hf : ∀ row, Same row (f row))
    (hback : ∀ row, Credential.revoked (f row) = true) (huse : ∀ row, lastUsedAt (f row) = lastUsedAt row) :
    Keeps strict hash pre throttle now (rows.map fun row => if key row = k then f row else row)
      (note ledger (.revoked k)) := by
  refine h.amend k hf (fun _ => ⟨rfl, rfl, rfl, rfl⟩) (fun _ row _ _ => hback row) (fun row g _ hg => ?_) h.past
  rw [huse]
  exact hg

theorem Keeps.used (h : Keeps strict hash pre throttle now rows ledger) (hpos : 0 < throttle) (k : ℤ) {f : α → α}
    (hf : ∀ row, Same row (f row)) (hback : ∀ row, Credential.revoked (f row) = Credential.revoked row)
    (huse : ∀ row, lastUsedAt (f row) = touched throttle now (lastUsedAt row)) :
    Keeps strict hash pre throttle now (rows.map fun row => if key row = k then f row else row)
      (note ledger (.used k now)) := by
  refine h.amend k hf (fun _ => ⟨rfl, rfl, rfl, rfl⟩) (fun _ row g hrow => (hback row).trans hrow) (fun row g hg hrow => ?_)
    fun g _ used hused => ?_
  · rw [huse]
    exact recorded_touched hpos hrow (h.past g hg)
  · rw [← Option.some.inj hused]

/-- only the ledger says that a token was taken back -/
theorem Keeps.noted (h : Keeps False hash pre throttle now rows ledger) (k : ℤ) :
    Keeps False hash pre throttle now rows (note ledger (.revoked k)) := by
  have hnoted : Keeps False hash pre throttle now (rows.map fun row => if key row = k then id row else row)
      (Bearer.amend k Grant.revoke ledger) :=
    h.amend k (fun _ => ⟨rfl, rfl, rfl, rfl, rfl⟩) (fun _ => ⟨rfl, rfl, rfl, rfl⟩) False.elim (fun _ _ _ hg => hg) h.past
  rwa [show (fun row : α => if key row = k then id row else row) = id from funext fun row => ite_self row,
    List.map_id] at hnoted

/-- the row that is taken back need not be the one that is noted -/
theorem Keeps.revoked_other (h : Keeps False hash pre throttle now rows ledger) (i k : ℤ) {f : α → α}
    (hf : ∀ row, Same row (f row)) (huse : ∀ row, lastUsedAt (f row) = lastUsedAt row) :
    Keeps False hash pre throttle now (rows.map fun row => if key row = i then f row else row)
      (note ledger (.revoked k)) := by
  have hrows : Keeps False hash pre throttle now (rows.map fun row => if key row = i then f row else row)
      (Bearer.amend i id ledger) := by
    refine h.amend i hf (fun _ => ⟨rfl, rfl, rfl, rfl⟩) False.elim (fun row g _ hg => ?_) h.past
    rw [huse]
    exact hg
  rw [Bearer.amend, show (fun g : Grant => if g.key = i then id g else g) = id from funext fun g => ite_self g,
    List.map_id] at hrows
  exact hrows.noted k

end Keeps

end Chancery.Core.Bearer
