/-
Dual control (app/services/dual_control_service.py).

While it is active, who sets something up may not approve it, nor may an account that this admin has created or reset within
the cool-down. The bootstrap account is exempt.
-/
import Mathlib.Tactic
import Chancery.Services.AuthService

namespace Chancery.DualControl

open Chancery.Core Chancery.Auth

/-- `is_exempt` -/
def isExempt (env : Env) (u : User) : Bool := u.username == env.adminUsername

/-- `is_active`: another active account exists, or the directory is on -/
def isActive (env : Env) (ldap : Option LdapConfig) (users : UserTable) : Bool :=
  env.dualControlEnabled &&
    (users.rows.any (fun u => u.isActiveUser && u.username != env.adminUsername) || (effectiveConfig env ldap).enabled)

/-- did `creator` do this to the account since the cut-off -/
def recent (cutoff : DateTime) (doneBy : Option ℤ) (doneAt : Option DateTime) (creator : ℤ) : Bool :=
  doneBy == some creator && doneAt.any fun t => decide (cutoff ≤ t)

/-- `can_approve` -/
def canApprove (env : Env) (approver : User) (creatorId : Option ℤ) : Bool :=
  if isExempt env approver then true
  else
    match creatorId with
    | none => true
    | some creator =>
      if approver.id = creator then false
      else if env.cooldownHours ≤ 0 then true
      else
        let cutoff := env.now - env.cooldownHours * hour
        !recent cutoff approver.createdBy approver.createdAt creator &&
          !recent cutoff approver.passwordResetBy approver.passwordResetAt creator

end Chancery.DualControl
