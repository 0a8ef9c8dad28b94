/-
Does the approval of an account need someone different from everyone who asked?

One account can wait for an activation and for a promotion at once, asked for by different admins. `pendingBy` holds the
last of them only, and the approver is compared with that one. The askers are kept here beside the accounts (`Asked`).

(1) `separate_iff`: in every run, every approval is separate from all who asked exactly when the askers that are not
recorded are admins the approver may approve for.
(2) That is so when nobody asks for a change on an account on which another admin's change is pending.
(3) `creator_approves_own_account`: an admin creates an account, a second one asks for its promotion, the first one
approves.
-/
import Mathlib.Tactic
import Chancery.Core.Run
import Chancery.Routes.Users

namespace Chancery.Auth

open Chancery.Core

/-! ## Who asked -/

/-- who asked for the pending activation and for the pending promotion of an account -/
structure Asked where
  activation : List ℤ
  promotion : List ℤ

/-- the accounts, and who asked, by account -/
structure Office where
  users : UserTable
  /-- the saved LDAP settings -/
  ldap : Option LdapConfig
  asked : ℤ → Asked

/-- those whose change an approval of the account would apply -/
def Asked.pending (a : Asked) (u : User) : List ℤ :=
  (if u.isPending then a.activation else []) ++ (if u.pendingRole.isSome then a.promotion else [])

def Office.askers (s : Office) (u : User) : List ℤ := (s.asked u.id).pending u

/-- a request of an admin, in its environment -/
structure AdminRequest where
  env : Env
  actor : ℤ
  request : UserRequest

/-- what a request adds to those who asked: the account, and its askers from now on -/
def nowAsked (env : Env) (ldap : Option LdapConfig) (users : UserTable) (admin : User) (asked : ℤ → Asked) :
    UserRequest → Option (ℤ × Asked)
  | .create form =>
    if form.accepted env users then some (users.nextKey, ⟨if gated env ldap users admin then [admin.id] else [], []⟩)
    else none
  | .edit uid role =>
    (users.get? uid).bind fun u =>
      if ¬ (role ≠ .admin ∧ lastAdmin users u = true) ∧ asksPromotion env ldap users admin u role = true then
        some (u.id, { asked u.id with
            promotion := admin.id :: if u.pendingRole.isSome then (asked u.id).promotion else [] })
      else none
  | .resetPassword uid _ password =>
    (users.get? uid).bind fun u =>
      if resetAccepted env ldap users admin u password ∧ gatedReset env ldap users admin u then
        some (u.id, { asked u.id with activation := admin.id :: if u.isPending then (asked u.id).activation else [] })
      else none
  | _ => none

def Office.ask (s : Office) (env : Env) (admin : User) (r : UserRequest) : ℤ → Asked :=
  match nowAsked env s.ldap s.users admin s.asked r with
  | none => s.asked
  | some (uid, a) => Function.update s.asked uid a

/-- one request -/
def administer (lib : Lib) (s : Office) (o : AdminRequest) : Office :=
  { s with
    users := (handleUsers lib o.env s.ldap o.actor o.request s.users []).1
    asked := (currentAdmin s.users o.actor).elim s.asked fun admin => s.ask o.env admin o.request }

/-- the admin approves this account, and dual control is active -/
def Approves (s : Office) (o : AdminRequest) (admin u : User) : Prop :=
  o.request = .approve u.id ∧ currentAdmin s.users o.actor = some admin ∧ s.users.get? u.id = some u ∧
    DualControl.isActive o.env s.ldap s.users = true ∧ approveAccepted o.env s.ldap s.users admin u = true

/-- an approval is by someone who may approve for everyone who asked -/
def Separate (s : Office) (o : AdminRequest) : Prop :=
  ∀ admin u, Approves s o admin u → ∀ asker ∈ s.askers u, DualControl.canApprove o.env admin (some asker) = true

/-- whoever asked and is not the one recorded is someone the approver may approve for -/
def UnrecordedApprovable (s : Office) (o : AdminRequest) : Prop :=
  ∀ admin u, Approves s o admin u → ∀ asker ∈ s.askers u, u.pendingBy ≠ some asker →
    DualControl.canApprove o.env admin (some asker) = true

/-- nobody asks for a change on an account on which another admin's change is pending -/
def NoOverwrite (s : Office) (o : AdminRequest) : Prop :=
  ∀ admin uid a, currentAdmin s.users o.actor = some admin →
    nowAsked o.env s.ldap s.users admin s.asked o.request = some (uid, a) →
      ∀ u, s.users.get? uid = some u → ∀ asker ∈ s.askers u, asker = admin.id

/-- the code checks the recorded asker -/
theorem separate_iff_unrecorded (s : Office) (o : AdminRequest) : Separate s o ↔ UnrecordedApprovable s o := by
  constructor
  · exact fun h admin u happroves asker hasker _ => h admin u happroves asker hasker
  · intro h admin u happroves asker hasker
    by_cases hrecorded : u.pendingBy = some asker
    · obtain ⟨_, _, _, hactive, haccepted⟩ := happroves
      simp only [approveAccepted, hactive, Bool.not_true, Bool.false_or, Bool.and_eq_true] at haccepted
      rw [← hrecorded]
      exact haccepted.2
    · exact h admin u happroves asker hasker hrecorded

/-! ## Whoever asked is recorded -/

/-- all who asked for a pending change are the recorded one -/
def Recorded (s : Office) : Prop := ∀ u ∈ s.users, ∀ asker ∈ s.askers u, u.pendingBy = some asker

section Recorded

variable {lib : Lib} {env : Env} {s : Office} {o : AdminRequest} {admin u v : User}

/-- a rewrite that adds no asker and keeps the recorded one -/
theorem recorded_update {k : ℤ} {f : User → User} {hf : ∀ a, (f a).id = a.id} {asked : ℤ → Asked} (h : Recorded s)
    (hothers : ∀ i, i ≠ k → asked i = s.asked i)
    (hself : ∀ a ∈ s.users, a.id = k → ∀ asker ∈ (asked k).pending (f a), (f a).pendingBy = some asker) :
    Recorded ⟨s.users.update k f hf, s.ldap, asked⟩ := by
  intro b hb
  obtain ⟨a, ha, rfl⟩ := List.mem_map.1 hb
  by_cases hk : a.id = k
  · rw [if_pos hk]
    show ∀ asker ∈ (asked (f a).id).pending (f a), (f a).pendingBy = some asker
    rw [hf, hk]
    exact hself a ha hk
  · rw [if_neg hk]
    show ∀ asker ∈ (asked a.id).pending a, a.pendingBy = some asker
    rw [hothers a.id hk]
    exact h a ha

/-- a rewrite that leaves the pending columns -/
theorem recorded_update_same {k : ℤ} {f : User → User} {hf : ∀ a, (f a).id = a.id} (h : Recorded s)
    (hpending : ∀ a, (f a).isPending = a.isPending)
      (hrole : ∀ a, (f a).pendingRole.isSome = true → a.pendingRole.isSome = true)
    (hby : ∀ a, (f a).pendingBy = a.pendingBy) : Recorded ⟨s.users.update k f hf, s.ldap, s.asked⟩ := by
  refine recorded_update h (fun _ _ => rfl) fun a ha hk asker hasker => ?_
  rw [hby]
  refine h a ha asker ?_
  rw [Office.askers, hk]
  simp only [Asked.pending, hpending, List.mem_append] at hasker ⊢
  refine hasker.imp id fun hpromotion => ?_
  by_cases hsome : (f a).pendingRole.isSome = true
  · rw [if_pos hsome] at hpromotion
    rwa [if_pos (hrole a hsome)]
  · simp [hsome] at hpromotion

/-- a new account: its only asker is recorded -/
theorem recorded_insert {waits : Bool} {form : UserForm} (h : Recorded s) :
    Recorded ⟨s.users.insert (newUser lib env waits admin.id form), s.ldap,
      Function.update s.asked s.users.nextKey ⟨if waits then [admin.id] else [], []⟩⟩ := by
  intro b hb asker hasker
  replace hasker : asker ∈ (Function.update s.asked s.users.nextKey
      ⟨if waits then [admin.id] else [], []⟩ b.id).pending b := hasker
  rcases List.mem_append.1 hb with hold | hnew
  · rw [Function.update_of_ne (Table.key_lt_nextKey hold).ne] at hasker
    exact h b hold asker hasker
  · rw [List.mem_singleton.1 hnew] at hasker ⊢
    have hkey : (newUser lib env waits admin.id form s.users.nextKey).id = s.users.nextKey := rfl
    rw [hkey, Function.update_self] at hasker
    cases waits with
    | false => simp [Asked.pending, newUser] at hasker
    | true =>
      have hasked : asker = admin.id := by simpa [Asked.pending, newUser, User.isPending] using hasker
      rw [hasked]
      rfl

/-- the asker of a change is recorded, when nobody else's change was pending -/
theorem recorded_ask {k : ℤ} {f : User → User} {hf : ∀ a, (f a).id = a.id} {a : Asked} (h : Recorded s)
    (hby : ∀ x, (f x).pendingBy = some admin.id) (hask : ∀ u, s.users.get? k = some u → ∀ asker ∈ a.pending (f u),
      asker = admin.id) : Recorded ⟨s.users.update k f hf, s.ldap, Function.update s.asked k a⟩ := by
  refine recorded_update h (fun i hi => Function.update_of_ne hi ..) fun x hx hk asker hasker => ?_
  rw [Function.update_self] at hasker
  rw [hby, hask x (hk ▸ Table.get?_key hx) asker hasker]

/-- who asks for a promotion, after those who asked before -/
theorem pending_askPromotion {a : Asked} {asker : ℤ}
    (h : asker ∈ Asked.pending { a with promotion := admin.id :: if u.pendingRole.isSome then a.promotion else [] }
      (askPromotion admin.id u)) : asker = admin.id ∨ asker ∈ a.pending u := by
  have hpending : (askPromotion admin.id u).isPending = u.isPending := rfl
  have hrole : (askPromotion admin.id u).pendingRole.isSome = true := rfl
  simp only [Asked.pending, hpending, hrole, if_true, List.mem_append, List.mem_cons] at h ⊢
  tauto

theorem passwordReset_pending {salt password : Text} :
    (passwordReset lib env admin.id salt password true u).isPending = true := rfl

theorem passwordReset_pendingBy {salt password : Text} :
    (passwordReset lib env admin.id salt password true u).pendingBy = some admin.id := rfl

/-- who resets an admin's password, after those who asked before -/
theorem pending_passwordReset {a : Asked} {asker : ℤ} {salt password : Text}
    (h : asker ∈ Asked.pending { a with activation := admin.id :: if u.isPending then a.activation else [] }
      (passwordReset lib env admin.id salt password true u)) : asker = admin.id ∨ asker ∈ a.pending u := by
  have hrole : (passwordReset lib env admin.id salt password true u).pendingRole = u.pendingRole := rfl
  simp only [Asked.pending, passwordReset_pending, hrole, if_true, List.mem_append, List.mem_cons] at h ⊢
  tauto

/-- an approval leaves nothing to approve -/
theorem pending_approved {a : Asked} {i : ℤ} : a.pending (approved i u) = [] := by
  have hrole : (approved i u).pendingRole = none := rfl
  have hpending : (approved i u).isPending = false := by
    by_cases hp : u.approvalStatus = .pending <;> simp [approved, User.isPending, clearLockout, hp]
  simp [Asked.pending, hrole, hpending]

/-- `edit_user` -/
theorem recorded_edit (h : Recorded s) (role : Role) (hv : s.users.get? v.id = some v)
    (hno : ∀ uid a, nowAsked env s.ldap s.users admin s.asked (.edit v.id role) = some (uid, a) →
      ∀ u, s.users.get? uid = some u → ∀ asker ∈ s.askers u, asker = admin.id) :
    Recorded ⟨editUser env s.ldap admin v role s.users, s.ldap, s.ask env admin (.edit v.id role)⟩ := by
  have hasked : nowAsked env s.ldap s.users admin s.asked (.edit v.id role) =
      if ¬ (role ≠ .admin ∧ lastAdmin s.users v = true) ∧ asksPromotion env s.ldap s.users admin v role = true then
        some (v.id, { s.asked v.id with
            promotion := admin.id :: if v.pendingRole.isSome then (s.asked v.id).promotion else [] })
      else none := by
    rw [nowAsked, hv]
    rfl
  unfold editUser Office.ask
  by_cases hlast : role ≠ .admin ∧ lastAdmin s.users v = true
  · rw [if_pos hlast, hasked, if_neg fun hand => hand.1 hlast]
    exact h
  rw [if_neg hlast]
  by_cases hasks : asksPromotion env s.ldap s.users admin v role = true
  · rw [if_pos ⟨hlast, hasks⟩] at hasked
    rw [if_pos hasks, hasked]
    refine recorded_ask h (fun _ => rfl) fun u hu asker hasker => ?_
    cases hv.symm.trans hu
    rcases pending_askPromotion hasker with hself | hbefore
    · exact hself
    · exact hno _ _ hasked v hv asker hbefore
  · rw [if_neg hasks, hasked, if_neg fun hand => hasks hand.2]
    refine recorded_update_same h (fun _ => rfl) (fun a ha => ?_) fun _ => rfl
    by_cases hrole : role = .admin
    · simpa [setRole, hrole] using ha
    · simp [setRole, hrole] at ha

/-- `toggle_active` -/
theorem recorded_toggle (h : Recorded s) : Recorded ⟨toggleActive admin v s.users, s.ldap, s.asked⟩ := by
  have hsame : ∀ a : User, (toggled a).isPending = a.isPending ∧ (toggled a).pendingRole = a.pendingRole ∧
      (toggled a).pendingBy = a.pendingBy := by
    intro a
    unfold toggled
    split_ifs <;> exact ⟨rfl, rfl, rfl⟩
  unfold toggleActive
  split_ifs
  · exact h
  · exact h
  · exact h
  · refine recorded_update_same h (fun a => (hsame a).1) (fun a ha => ?_) fun a => (hsame a).2.2
    rwa [(hsame a).2.1] at ha

/-- `reset_password` -/
theorem recorded_resetPassword (h : Recorded s) (salt password : Text) (hv : s.users.get? v.id = some v)
    (hno : ∀ uid a, nowAsked env s.ldap s.users admin s.asked (.resetPassword v.id salt password) = some (uid, a) →
      ∀ u, s.users.get? uid = some u → ∀ asker ∈ s.askers u, asker = admin.id) :
    Recorded ⟨(resetPassword lib env s.ldap admin v salt password s.users []).1, s.ldap,
      s.ask env admin (.resetPassword v.id salt password)⟩ := by
  have hasked : nowAsked env s.ldap s.users admin s.asked (.resetPassword v.id salt password) =
      if resetAccepted env s.ldap s.users admin v password ∧ gatedReset env s.ldap s.users admin v then
        some (v.id, { s.asked v.id with activation := admin.id :: if v.isPending then (s.asked v.id).activation else [] })
      else none := by
    rw [nowAsked, hv]
    rfl
  unfold resetPassword Office.ask
  by_cases haccepted : resetAccepted env s.ldap s.users admin v password = true
  · rw [if_pos haccepted]
    by_cases hgated : gatedReset env s.ldap s.users admin v = true
    · rw [if_pos ⟨haccepted, hgated⟩] at hasked
      rw [hasked]
      refine @recorded_ask s admin v.id _ (passwordReset_id lib env admin.id salt password _) _ h
        (fun _ => by rw [hgated]; exact passwordReset_pendingBy) fun u hu asker hasker => ?_
      cases hv.symm.trans hu
      rw [hgated] at hasker
      rcases pending_passwordReset hasker with hself | hbefore
      · exact hself
      · exact hno _ _ hasked v hv asker hbefore
    · rw [hasked, if_neg fun hand => hgated hand.2]
      rw [Bool.not_eq_true] at hgated
      have hsame : ∀ a, passwordReset lib env admin.id salt password (gatedReset env s.ldap s.users admin v) a =
          passwordReset lib env admin.id salt password false a := fun a => by rw [hgated]
      refine @recorded_update_same s v.id _ (passwordReset_id lib env admin.id salt password _) h (fun a => ?_)
        (fun a ha => ?_) fun a => ?_
      · rw [hsame a]
        rfl
      · rw [hsame a] at ha
        exact ha
      · rw [hsame a]
        rfl
  · rw [if_neg haccepted, hasked, if_neg fun hand => haccepted hand.1]
    exact h

/-- `approve_user` -/
theorem recorded_approve (h : Recorded s) : Recorded ⟨approveUser env s.ldap admin v s.users, s.ldap, s.asked⟩ := by
  unfold approveUser
  split_ifs
  · refine recorded_update h (fun _ _ => rfl) fun a _ _ asker hasker => ?_
    rw [pending_approved] at hasker
    cases hasker
  · exact h

/-- **One request** that overwrites nobody keeps every asker recorded. -/
theorem Recorded.administer (h : Recorded s) (hno : NoOverwrite s o) : Recorded (administer lib s o) := by
  obtain ⟨env, actor, request⟩ := o
  unfold Auth.administer
  simp only
  cases hadmin : currentAdmin s.users actor with
  | none =>
    simp only [handleUsers, hadmin, Option.elim_none]
    exact h
  | some admin =>
    have hno' : ∀ uid a, nowAsked env s.ldap s.users admin s.asked request = some (uid, a) →
        ∀ u, s.users.get? uid = some u → ∀ asker ∈ s.askers u, asker = admin.id :=
      fun uid a ha => hno admin uid a hadmin ha
    simp only [handleUsers, hadmin, Option.elim_some]
    cases request with
    | create form =>
      simp only [createUser, Office.ask, nowAsked]
      by_cases haccepted : form.accepted env s.users = true
      · rw [if_pos haccepted, if_pos haccepted]
        exact recorded_insert h
      · rw [if_neg haccepted, if_neg haccepted]
        exact h
    | edit uid role =>
      cases hv : s.users.get? uid with
      | none => simpa [Office.ask, nowAsked, hv] using h
      | some v =>
        obtain rfl : v.id = uid := Table.key_of_get? hv
        simp only [hv, Option.elim_some]
        exact recorded_edit h role hv hno'
    | toggle uid =>
      cases hv : s.users.get? uid with
      | none =>
        simp only [hv, Option.elim_none]
        exact h
      | some v =>
        simp only [hv, Option.elim_some]
        exact recorded_toggle h
    | resetPassword uid salt password =>
      cases hv : s.users.get? uid with
      | none => simpa [Office.ask, nowAsked, hv] using h
      | some v =>
        obtain rfl : v.id = uid := Table.key_of_get? hv
        simp only [hv, Option.elim_some]
        exact recorded_resetPassword h salt password hv hno'
    | reset2fa uid =>
      cases hv : s.users.get? uid with
      | none =>
        simp only [hv, Option.elim_none]
        exact h
      | some v =>
        simp only [hv, Option.elim_some, Auth.reset2fa]
        split_ifs
        · exact @recorded_update_same s v.id (fun a => bumpSessionVersion (clearTotp a)) (fun _ => rfl) h (fun _ => rfl)
            (fun _ ha => ha) fun _ => rfl
        · exact h
    | approve uid =>
      cases hv : s.users.get? uid with
      | none =>
        simp only [hv, Option.elim_none]
        exact h
      | some v =>
        simp only [hv, Option.elim_some]
        exact recorded_approve h

/-- an approval of an account whose askers are recorded -/
theorem Recorded.separate (h : Recorded s) (o : AdminRequest) : Separate s o := by
  refine (separate_iff_unrecorded s o).2 fun admin u happroves asker hasker hne => ?_
  exact absurd (h u (Table.mem_of_get? happroves.2.2.1) asker hasker) hne

end Recorded

/-! ## Runs -/

section Run

variable {lib : Lib} {s : Office}

/-- **(1), (2) Separate approvals.** Along every run, each approval made while dual control is active is by an admin who may
approve for all who asked exactly when, at each, that holds of those who are not recorded. From accounts that wait for
nothing it is so when nobody asks for a change while another admin's change is pending on the account. -/
theorem separate_iff (lib : Lib) (s : Office) (ops : List AdminRequest) :
    (Meets (administer lib) Separate s ops ↔ Meets (administer lib) UnrecordedApprovable s ops) ∧
      ((∀ u ∈ s.users, u.awaitsApproval = false) → Meets (administer lib) NoOverwrite s ops →
        Meets (administer lib) Separate s ops) := by
  constructor
  · exact @meets_congr _ _ (administer lib) (fun _ => True) _ _ (fun _ _ _ => trivial)
      (fun s o _ => separate_iff_unrecorded s o) s trivial ops
  · intro hquiet hno
    have hstart : Recorded s := by
      intro u hu asker hasker
      have hnone := hquiet u hu
      simp only [User.awaitsApproval, Bool.or_eq_false_iff] at hnone
      simp [Office.askers, Asked.pending, hnone.1, hnone.2] at hasker
    exact Meets.mono (fun t o ht hC => Recorded.administer ht hC) (fun t o ht _ => ht.separate o) hstart hno

end Run

/-- the bootstrap admin and two others -/
def sampleOffice : Office where
  users := ⟨[sampleUser 1 "admin" .admin, sampleUser 2 "xavier" .admin, sampleUser 3 "yvonne" .admin], by decide⟩
  ldap := none
  asked := fun _ => ⟨[], []⟩

/-- xavier creates an account, and yvonne asks for its promotion -/
def createAndPromote : List AdminRequest :=
  [⟨Env.at day, 2, .create ⟨"mallory".toList, "mallory-password".toList, .csrRequester, []⟩⟩,
    ⟨Env.at day, 3, .edit 4 .admin⟩]

/-- xavier approves it -/
def ownApproval : AdminRequest := ⟨Env.at day, 2, .approve 4⟩

/-- **(3)** The approval is accepted and activates the account, which xavier himself has created. -/
theorem creator_approves_own_account :
    (∀ u ∈ sampleOffice.users, u.awaitsApproval = false) ∧
      ¬ Meets (administer sampleLib) Separate sampleOffice (createAndPromote ++ [ownApproval]) := by
  refine ⟨show ∀ u ∈ sampleOffice.users.rows, u.awaitsApproval = false by decide, fun h => ?_⟩
  have hseparate := (meets_append.1 h).2.1
  have haccepted : (currentAdmin (run (administer sampleLib) sampleOffice createAndPromote).users 2).any (fun admin =>
      ((run (administer sampleLib) sampleOffice createAndPromote).users.get? 4).any fun u =>
        decide (u.id = 4) && DualControl.isActive (Env.at day)
          (run (administer sampleLib) sampleOffice createAndPromote).ldap
          (run (administer sampleLib) sampleOffice createAndPromote).users &&
        approveAccepted (Env.at day) (run (administer sampleLib) sampleOffice createAndPromote).ldap
          (run (administer sampleLib) sampleOffice createAndPromote).users admin u &&
        decide (2 ∈ (run (administer sampleLib) sampleOffice createAndPromote).askers u) &&
        !DualControl.canApprove (Env.at day) admin (some 2)) = true := by
    decide +kernel
  obtain ⟨admin, hadmin, hany⟩ := (Option.any_eq_true _ _).1 haccepted
  obtain ⟨u, hu, hall⟩ := (Option.any_eq_true _ _).1 hany
  simp only [Bool.and_eq_true, decide_eq_true_eq, Bool.not_eq_true'] at hall
  obtain ⟨⟨⟨⟨hid, hactive⟩, happrove⟩, hasker⟩, hrefused⟩ := hall
  have hcan := hseparate admin u ⟨by rw [hid]; rfl, hadmin, by rw [hid]; exact hu, hactive, happrove⟩ 2 hasker
  exact absurd hcan (by rw [show ownApproval.env = Env.at day from rfl, hrefused]; decide)

end Chancery.Auth
