/-
Does a CA that awaits approval, or that has no private key here, ever sign.

The system is the CA tables, the OCSP responders, and the log of what CA keys have signed. Its steps are the requests of
Routes.Ca (some of them abandoned after their signatures), the status requests, and the rotations of responders by the page,
the scheduler and the command line.

(1) `handle_guarded`, `ocsp_guarded`: what one step signs, it signs with the key of a CA that is in the tables at that
moment, has a signing key and is not pending; or a new root signs its own certificate (`Guarded`).
(2) `uses_guarded`: so it is along every run, from any tables.
-/
import Mathlib.Tactic
import Chancery.Core.Run
import Chancery.Services.KeyUse

namespace Chancery.Pki.Keys

open Chancery.Core Traced

/-- the CA of the key is in the tables and may sign, or it is being created and signs its own certificate -/
def Guarded (u : KeyUse) : Prop :=
  (∃ ca, u.tables.cas.get? u.caId = some ca ∧ ca.cannotSign = false) ∨
    (u.signed = .ownCertificate ∧ u.tables.cas.get? u.caId = none)

/-! ## The system -/

structure KeySystem where
  db : Db
  responders : ℤ → Option X509
  uses : List KeyUse

inductive KeyOp
  | request (env : Env) (r : Request)
  /-- a request that fails after its signatures and is rolled back -/
  | abandoned (env : Env) (r : Request)
  | ocsp (call : OcspCall)
  /-- the page of a CA -/
  | rotate (env : Env) (cfg : ResponderConfig) (caId : ℤ) (draw : ResponderDraw) (stored : Except PyError Unit)
  /-- `job_ocsp_responders`, and `ocsp rotate-responders` for every CA or for one -/
  | rotateAll (env : Env) (cfg : ResponderConfig) (only : Option ℤ) (force : Bool) (draws : ℤ → ResponderDraw)
      (stored : ℤ → Except PyError Unit)

section Steps

variable (lib : Lib)

/-- `ensure_responder` and the commit of its caller -/
def rotateOne (env : Env) (cfg : ResponderConfig) (force : Bool) (draw : ResponderDraw) (stored : Except PyError Unit)
    (w : KeySystem) (ca : CaRow) : KeySystem :=
  let x := ensureResponder lib env cfg ca (w.responders ca.id) force draw w.db
  match x.value, stored with
  | .ok (some cert), .ok () => ⟨w.db, Function.update w.responders ca.id (some cert), w.uses ++ x.log⟩
  | _, _ => { w with uses := w.uses ++ x.log }

def keyStep (w : KeySystem) : KeyOp → KeySystem
  | .request env r => ⟨(handle lib w.db env r).2.1, w.responders, w.uses ++ (handle lib w.db env r).1⟩
  | .abandoned env r => { w with uses := w.uses ++ (handle lib w.db env r).1 }
  | .ocsp call =>
    match w.db.cas.get? call.caId with
    | none => w
    | some ca =>
      let x := buildOcspResponse lib call ca (w.responders ca.id) w.db
      ⟨w.db, Function.update w.responders ca.id x.2, w.uses ++ x.1⟩
  | .rotate env cfg caId draw stored =>
    match w.db.cas.get? caId with
    | none => w
    | some ca => rotateOne lib env cfg true draw stored w ca
  | .rotateAll env cfg only force draws stored =>
    (w.db.cas.rows.filter fun ca =>
      ca.signingCapable && only.all (· == ca.id) && !ca.expired env.now).foldl
        (fun w ca => rotateOne lib env cfg force (draws ca.id) (stored ca.id) w ca) w

end Steps

variable {lib : Lib} {env : Env} {ca : CaRow} {s : Db}

/-- the tables of the system are those of Routes.Ca -/
theorem keyStep_db (w : KeySystem) (env : Env) (r : Request) :
    (keyStep lib w (.request env r)).db = Pki.step lib w.db (env, r) := by
  show (handle lib w.db env r).2.1 = (Pki.handle lib w.db env r).1
  rw [handle_value]

/-! ## (1) One step -/

theorem get?_self {i : ℤ} (h : s.cas.get? i = some ca) : s.cas.get? ca.id = some ca :=
  Table.get?_key (Table.mem_of_get? h)

theorem get?_of_capable {i : ℤ} (h : capable? i s = some ca) : s.cas.get? ca.id = some ca :=
  get?_self (Option.filter_eq_some_iff.1 h).1

/-- a signature through `backend_for_ca` is guarded, if the row asked is the row in the tables -/
theorem logs_signWith {signed : Signed} {outcome : Except PyError Unit} (h : s.cas.get? ca.id = some ca) :
    Logs Guarded (signWith ca signed outcome s) := by
  refine logs_lift_bind fun _ hbackend => logs_lift_bind fun _ _ => logs_emit ?_
  exact Or.inl ⟨ca, h, backendForCa_iff.1 hbackend⟩

theorem logs_generateCrl {nextUpdate : Option DateTime} (h : s.cas.get? ca.id = some ca) :
    Logs Guarded (generateCrl env ca nextUpdate s) :=
  logs_lift_bind fun _ _ => logs_lift_bind fun _ _ => logs_bind (logs_signWith h) fun _ _ => logs_lift _

theorem logs_refreshCrl {ca? : Option CaRow} (h : ∀ ca ∈ ca?, s.cas.get? ca.id = some ca) :
    Logs Guarded (refreshCrl env ca? s) := by
  unfold refreshCrl
  cases ca? with
  | none => exact logs_lift _
  | some ca =>
    simp only []
    split_ifs
    · exact logs_lift _
    · exact logs_generateCrl (h ca rfl)

theorem logs_publishFinalCrl (i : ℤ) : Logs Guarded (publishFinalCrl env (s.cas.get? i) s) := by
  unfold publishFinalCrl
  cases hca : s.cas.get? i with
  | none => exact logs_lift _
  | some ca =>
    simp only []
    split_ifs
    · exact logs_lift _
    · exact logs_lift _
    · exact logs_generateCrl (get?_self hca)

theorem publishFinalCrls_guarded (ids : List ℤ) : ∀ u ∈ (publishFinalCrls env ids s).1, Guarded u := by
  induction ids generalizing s with
  | nil => exact fun u hu => absurd hu List.not_mem_nil
  | cons i rest ih =>
    have hone := @logs_publishFinalCrl env s i
    simp only [publishFinalCrls]
    cases (publishFinalCrl env (s.cas.get? i) s).value with
    | error e => exact hone
    | ok s' =>
      intro u hu
      rcases List.mem_append.1 hu with hu | hu
      · exact hone u hu
      · exact ih u hu

theorem publishRevocationCrls_guarded (caId : ℤ) : ∀ u ∈ (publishRevocationCrls env caId s).1, Guarded u := by
  have hparent : Logs Guarded (refreshCrl env (((s.cas.get? caId).bind (·.parentId)).bind s.cas.get?) s) := by
    refine logs_refreshCrl fun ca hca => ?_
    obtain ⟨p, _, hp⟩ := Option.bind_eq_some_iff.1 hca
    exact get?_self hp
  simp only [publishRevocationCrls]
  cases (refreshCrl env (((s.cas.get? caId).bind (·.parentId)).bind s.cas.get?) s).value with
  | error e => exact hparent
  | ok s' =>
    simp only []
    cases revokedSubtree s' caId with
    | none => exact hparent
    | some ids =>
      intro u hu
      rcases List.mem_append.1 hu with hu | hu
      · exact hparent u hu
      · exact publishFinalCrls_guarded ids u hu

theorem publishInitialCrl_guarded (caId : ℤ) : ∀ u ∈ (publishInitialCrl env caId s).1, Guarded u := by
  unfold publishInitialCrl
  cases hca : s.cas.get? caId with
  | none => exact fun u hu => absurd hu List.not_mem_nil
  | some ca =>
    simp only []
    split_ifs
    · exact fun u hu => absurd hu List.not_mem_nil
    · exact logs_generateCrl (get?_self hca)

/-- a new root signs its own certificate before it is in the tables -/
theorem logs_createRootCa {form : CaForm} : Logs Guarded (createRootCa env form s) := by
  refine logs_lift_bind fun _ _ => logs_lift_bind fun _ _ => logs_lift_bind fun _ _ => logs_bind (logs_emit ?_) fun _ _ =>
    logs_lift_bind fun _ _ => publishInitialCrl_guarded _
  exact Or.inr ⟨rfl, Table.get?_nextKey _⟩

theorem logs_createIntermediateCa {form : CaForm} {parent : CaRow} (h : s.cas.get? parent.id = some parent) :
    Logs Guarded (createIntermediateCa lib env form parent s) := by
  refine logs_lift_bind fun _ _ => logs_lift_bind fun _ _ => logs_lift_bind fun _ _ => logs_lift_bind fun _ _ =>
    logs_lift_bind fun _ _ => logs_lift_bind fun _ _ => ?_
  split_ifs
  · exact logs_lift _
  · exact logs_bind (logs_signWith h) fun _ _ => logs_lift_bind fun _ _ => publishInitialCrl_guarded _

theorem logs_importCa {form : ImportForm} : Logs Guarded (importCa lib env form s) :=
  logs_lift_bind fun _ _ => logs_lift_bind fun _ _ => publishInitialCrl_guarded _

/-- a CA re-issues itself, or its parent does -/
theorem logs_reissueCaCertificate {validityDays : Option ℤ} {status : ApprovalStatus} {serial : ℤ}
    (h : s.cas.get? ca.id = some ca) : Logs Guarded (reissueCaCertificate env ca validityDays status serial s) := by
  refine logs_lift_bind fun issuer hissuer => logs_lift_bind fun _ _ => logs_lift_bind fun _ _ => ?_
  have hrow : s.cas.get? issuer.id = some issuer := by
    rcases (reissueIssuer_ok hissuer).2 with rfl | hparent
    · exact h
    · obtain ⟨p, _, hp⟩ := Option.bind_eq_some_iff.1 hparent
      exact get?_self hp
  by_cases hkey : (!issuer.certificate.hasKeyId) = true
  · rw [if_pos hkey]
    exact logs_lift _
  · rw [if_neg hkey]
    exact logs_bind (logs_signWith hrow) fun _ _ => logs_lift _

theorem logs_crossSignCa {issuer : CaRow} {validityDays : Option ℤ} {status : ApprovalStatus} {serial : ℤ}
    (h : s.cas.get? issuer.id = some issuer) :
    Logs Guarded (crossSignCa lib env ca issuer validityDays status serial s) := by
  refine logs_lift_bind fun _ _ => logs_lift_bind fun _ _ => logs_lift_bind fun _ _ => logs_lift_bind fun _ _ =>
    logs_lift_bind fun _ _ => ?_
  split_ifs
  · exact logs_lift _
  · exact logs_bind (logs_signWith h) fun _ _ => logs_lift _

theorem logs_createCertificate {caId : ℤ} {form : LeafForm} : Logs Guarded (createCertificate lib env caId form s) := by
  unfold createCertificate
  cases hca : s.cas.get? caId with
  | none => exact logs_lift _
  | some ca =>
    simp only []
    split_ifs
    · exact logs_lift _
    · exact logs_lift_bind fun _ _ => logs_lift_bind fun _ _ => logs_bind (logs_signWith (get?_self hca)) fun _ _ =>
        logs_lift _

theorem logs_signRow {row : CsrRow} {form : LeafForm} (h : s.cas.get? ca.id = some ca) :
    Logs Guarded (signRow lib env row ca form s) :=
  logs_lift_bind fun _ _ => logs_bind (logs_signWith h) fun _ _ => logs_lift_bind fun _ _ => logs_lift _

theorem logs_signCsr {csrId caId : ℤ} {form : LeafForm} : Logs Guarded (signCsr lib env csrId caId form s) := by
  unfold signCsr
  cases s.csrs.get? csrId with
  | none => exact logs_lift _
  | some row =>
    simp only []
    split_ifs
    · exact logs_lift _
    · cases hca : s.cas.get? caId with
      | none => exact logs_lift _
      | some ca =>
        simp only []
        split_ifs
        · exact logs_lift _
        · exact logs_lift_bind fun _ _ => logs_signRow (get?_self hca)

theorem logs_acmeSign {csrId caId : ℤ} {form : LeafForm} : Logs Guarded (acmeSign lib env csrId caId form s) := by
  unfold acmeSign
  cases hca : s.cas.get? caId with
  | none => exact logs_lift _
  | some ca =>
    simp only []
    split_ifs
    · exact logs_lift _
    · cases s.csrs.get? csrId with
      | none => exact logs_lift _
      | some row => exact logs_lift_bind fun _ _ => logs_signRow (get?_self hca)

theorem logs_renewLeaf {old : LeafRow} {form : RenewForm} (h : s.cas.get? ca.id = some ca) :
    Logs Guarded (renewLeaf lib env old ca form s) := by
  refine logs_lift_bind fun _ _ => logs_lift_bind fun _ _ => logs_bind (logs_signWith h) fun _ _ =>
    logs_lift_bind fun _ _ => ?_
  split_ifs
  · exact logs_lift _
  · exact logs_lift _

/-! ### Requests -/

theorem afterCommit_guarded {x : Keyed Db} {refresh : Db → Keyed Db} (hx : Logs Guarded x)
    (hrefresh : ∀ s', Logs Guarded (refresh s')) : ∀ u ∈ (afterCommit s x refresh).1, Guarded u := by
  unfold afterCommit
  cases x.value with
  | error e => exact hx
  | ok s' =>
    intro u hu
    rcases List.mem_append.1 hu with hu | hu
    · exact hx u hu
    · exact hrefresh s' u hu

theorem withCa_guarded {caId : ℤ} {f : CaRow → Logged Result}
    (h : ∀ ca, s.cas.get? ca.id = some ca → ∀ u ∈ (f ca).1, Guarded u) : ∀ u ∈ (withCa caId s f).1, Guarded u := by
  unfold withCa
  cases hca : s.cas.get? caId with
  | none => exact fun u hu => absurd hu List.not_mem_nil
  | some ca => exact h ca (get?_self hca)

theorem withAlternate_guarded {altId : ℤ} {f : CaCertRow → Logged Result} (h : ∀ row, ∀ u ∈ (f row).1, Guarded u) :
    ∀ u ∈ (withAlternate ca altId s f).1, Guarded u := by
  unfold withAlternate
  cases s.alternates.get? altId with
  | none => exact fun u hu => absurd hu List.not_mem_nil
  | some row =>
    simp only []
    split_ifs
    · exact fun u hu => absurd hu List.not_mem_nil
    · exact h row

theorem logs_refreshPrimary {caId : ℤ} : Logs Guarded (refreshPrimary env caId s) := by
  unfold refreshPrimary
  cases hca : s.cas.get? caId with
  | none => exact logs_lift _
  | some ca =>
    simp only []
    split_ifs
    · exact logs_lift _
    · refine logs_refreshCrl fun a ha => ?_
      cases ha
      exact get?_self hca

theorem approveCa_guarded : ∀ u ∈ (approveCa env ca s).1, Guarded u := by
  unfold approveCa
  split_ifs
  · exact fun u hu => absurd hu List.not_mem_nil
  · cases env.checks with
    | error e => exact fun u hu => absurd hu List.not_mem_nil
    | ok _ => exact publishInitialCrl_guarded _

theorem currentCrl_guarded (h : s.cas.get? ca.id = some ca) : ∀ u ∈ (currentCrl env ca s).1, Guarded u := by
  unfold currentCrl
  cases ca.crl with
  | none => exact fun u hu => absurd hu List.not_mem_nil
  | some crl =>
    simp only []
    split_ifs
    · exact logs_generateCrl h
    · exact fun u hu => absurd hu List.not_mem_nil

theorem refreshStale_guarded (caId : ℤ) : ∀ u ∈ (refreshStale env s caId).1, Guarded u := by
  unfold refreshStale
  cases hca : capable? caId s with
  | none => exact fun u hu => absurd hu List.not_mem_nil
  | some ca =>
    simp only []
    split_ifs
    · exact logs_generateCrl (get?_of_capable hca)
    · exact fun u hu => absurd hu List.not_mem_nil

theorem crlRefreshJob_guarded (ids : List ℤ) : ∀ u ∈ (crlRefreshJob env ids s).1, Guarded u := by
  induction ids generalizing s with
  | nil => exact fun u hu => absurd hu List.not_mem_nil
  | cons i rest ih =>
    intro u hu
    rcases List.mem_append.1 hu with hu | hu
    · exact refreshStale_guarded i u hu
    · exact ih u hu

theorem crlRefreshCli_guarded (all : Bool) (ids : List ℤ) : ∀ u ∈ (crlRefreshCli env all ids s).1, Guarded u := by
  induction ids generalizing s with
  | nil => exact fun u hu => absurd hu List.not_mem_nil
  | cons i rest ih =>
    rw [crlRefreshCli]
    cases hca : (s.cas.get? i).filter (fun ca => !ca.isRevoked && !ca.cannotSign && (all || crlIsStale ca env.now 0)) with
    | none => exact ih
    | some ca =>
      have hone := @logs_generateCrl env ca s none (get?_self (Option.filter_eq_some_iff.1 hca).1)
      simp only []
      cases (generateCrl env ca none s).value with
      | error e => exact hone
      | ok s' =>
        intro u hu
        rcases List.mem_append.1 hu with hu | hu
        · exact hone u hu
        · exact ih u hu

theorem revokeCaRequest_guarded (caId : ℤ) (reason : String) : ∀ u ∈ (revokeCaRequest env caId reason s).1, Guarded u := by
  unfold revokeCaRequest
  cases env.checks >>= fun _ => sweepCa env.now caId reason s with
  | error e => exact fun u hu => absurd hu List.not_mem_nil
  | ok x => exact publishRevocationCrls_guarded caId

/-- **(1) One request.** -/
theorem handle_guarded (s : Db) (env : Env) (r : Request) : ∀ u ∈ (handle lib s env r).1, Guarded u := by
  cases r with
  | createRoot form => exact logs_createRootCa
  | createIntermediate parentId form =>
    simp only [handle]
    cases hparent : capable? parentId s with
    | none => exact fun u hu => absurd hu List.not_mem_nil
    | some parent => exact logs_createIntermediateCa (get?_of_capable hparent)
  | importCa form => exact logs_importCa
  | createCertificate caId form => exact logs_createCertificate
  | importCsr csr => exact fun u hu => absurd hu List.not_mem_nil
  | signCsr csrId caId form => exact logs_signCsr
  | acmeSign csrId caId form => exact logs_acmeSign
  | renew certId form =>
    simp only [handle]
    cases s.leaves.get? certId with
    | none => exact fun u hu => absurd hu List.not_mem_nil
    | some old =>
      refine withCa_guarded fun ca hca => afterCommit_guarded (logs_renewLeaf hca) fun s' => ?_
      split_ifs
      · exact logs_refreshCrl fun a ha => get?_self ha
      · exact logs_lift _
  | reissue caId days status serial =>
    refine withCa_guarded fun ca hca => afterCommit_guarded (logs_reissueCaCertificate hca) fun s' => ?_
    split_ifs
    · exact logs_refreshPrimary
    · exact logs_lift _
  | crossSign caId issuerId days status serial =>
    refine withCa_guarded fun ca hca => ?_
    cases hissuer : capable? issuerId s with
    | none => exact fun u hu => absurd hu List.not_mem_nil
    | some issuer => exact logs_crossSignCa (get?_of_capable hissuer)
  | importAlternate caId cert => exact fun u hu => absurd hu List.not_mem_nil
  | approve caId => exact withCa_guarded fun ca hca => approveCa_guarded
  | approveAlternate caId altId =>
    refine withCa_guarded fun ca hca => withAlternate_guarded fun row => afterCommit_guarded (logs_lift _) fun s' => ?_
    split_ifs
    · exact logs_refreshPrimary
    · exact logs_lift _
  | deleteAlternate caId altId => exact fun u hu => absurd hu List.not_mem_nil
  | setAcme caId enable => exact fun u hu => absurd hu List.not_mem_nil
  | revokeCertificate certId reason =>
    refine afterCommit_guarded (logs_lift _) fun s' => logs_refreshCrl fun ca hca => ?_
    obtain ⟨c, _, hc⟩ := Option.bind_eq_some_iff.1 hca
    exact get?_self hc
  | revokeCa caId reason => exact revokeCaRequest_guarded caId reason
  | generateCrl caId =>
    refine withCa_guarded fun ca hca => ?_
    split_ifs
    · exact fun u hu => absurd hu List.not_mem_nil
    · exact logs_generateCrl hca
  | currentCrl caId => exact withCa_guarded fun ca hca => currentCrl_guarded hca
  | crlRefreshJob => exact crlRefreshJob_guarded _
  | crlRefreshCli all => exact crlRefreshCli_guarded all _

/-! ### OCSP -/

theorem logs_ensureResponder {cfg : ResponderConfig} {responder : Option X509} {force : Bool} {draw : ResponderDraw}
    (h : s.cas.get? ca.id = some ca) : Logs Guarded (ensureResponder lib env cfg ca responder force draw s) := by
  refine logs_lift_bind fun _ _ => ?_
  split_ifs
  · exact logs_lift _
  · exact logs_lift_bind fun _ _ => logs_lift_bind fun _ _ => logs_lift _
  · exact logs_lift_bind fun _ _ => logs_lift_bind fun _ _ => logs_bind (logs_signWith h) fun _ _ => logs_lift _

theorem delegatedResponder_guarded {call : OcspCall} {responder : Option X509} (h : s.cas.get? ca.id = some ca) :
    ∀ u ∈ (delegatedResponder lib call ca responder s).1, Guarded u := by
  have hone := @logs_ensureResponder lib call.env ca s call.cfg responder false call.draw h
  unfold delegatedResponder
  split_ifs
  · exact fun u hu => absurd hu List.not_mem_nil
  · exact fun u hu => absurd hu List.not_mem_nil
  · exact fun u hu => absurd hu List.not_mem_nil
  · simp only []
    split
    · exact hone
    · exact hone

/-- **(1) One status request.** -/
theorem ocsp_guarded {call : OcspCall} {responder : Option X509} (h : s.cas.get? ca.id = some ca) :
    ∀ u ∈ (buildOcspResponse lib call ca responder s).1, Guarded u := by
  have hone := @delegatedResponder_guarded lib ca s call responder h
  unfold buildOcspResponse
  split_ifs
  · exact fun u hu => absurd hu List.not_mem_nil
  cases call.request with
  | none => exact fun u hu => absurd hu List.not_mem_nil
  | some req =>
    simp only []
    cases ocspSubject s ca.id (formatHex req.serialNumber) with
    | none => exact fun u hu => absurd hu List.not_mem_nil
    | some subject =>
      simp only []
      split_ifs
      · exact hone
      · intro u hu
        rcases List.mem_append.1 hu with hu | hu
        · exact hone u hu
        · exact logs_lift_bind (fun _ _ => logs_signWith h) u hu

/-! ## (2) Every run -/

/-- a rotation logs guarded uses only and leaves the tables as they are -/
theorem rotateOne_guarded {cfg : ResponderConfig} {force : Bool} {draw : ResponderDraw} {stored : Except PyError Unit}
    {w : KeySystem} (hw : ∀ u ∈ w.uses, Guarded u) (h : w.db.cas.get? ca.id = some ca) :
    (∀ u ∈ (rotateOne lib env cfg force draw stored w ca).uses, Guarded u) ∧
      (rotateOne lib env cfg force draw stored w ca).db = w.db := by
  have hone := @logs_ensureResponder lib env ca w.db cfg (w.responders ca.id) force draw h
  have happend : ∀ u ∈ w.uses ++ (ensureResponder lib env cfg ca (w.responders ca.id) force draw w.db).log, Guarded u := by
    intro u hu
    rcases List.mem_append.1 hu with hu | hu
    · exact hw u hu
    · exact hone u hu
  unfold rotateOne
  simp only []
  split
  · exact ⟨happend, rfl⟩
  · exact ⟨happend, rfl⟩

theorem rotateAll_guarded {cfg : ResponderConfig} {force : Bool} {draws : ℤ → ResponderDraw}
    {stored : ℤ → Except PyError Unit} {cas : List CaRow} {w : KeySystem} (hw : ∀ u ∈ w.uses, Guarded u)
    (hcas : ∀ ca ∈ cas, w.db.cas.get? ca.id = some ca) :
    ∀ u ∈ (cas.foldl (fun w ca => rotateOne lib env cfg force (draws ca.id) (stored ca.id) w ca) w).uses, Guarded u := by
  induction cas generalizing w with
  | nil => exact hw
  | cons ca rest ih =>
    obtain ⟨huses, hdb⟩ := @rotateOne_guarded lib env ca cfg force (draws ca.id) (stored ca.id) w hw
      (hcas ca List.mem_cons_self)
    refine ih huses fun a ha => ?_
    rw [hdb]
    exact hcas a (List.mem_cons_of_mem _ ha)

theorem step_guarded {w : KeySystem} (hw : ∀ u ∈ w.uses, Guarded u) (o : KeyOp) :
    ∀ u ∈ (keyStep lib w o).uses, Guarded u := by
  have happend : ∀ l : List KeyUse, (∀ u ∈ l, Guarded u) → ∀ u ∈ w.uses ++ l, Guarded u := by
    intro l hl u hu
    rcases List.mem_append.1 hu with hu | hu
    · exact hw u hu
    · exact hl u hu
  cases o with
  | request env r => exact happend _ (handle_guarded w.db env r)
  | abandoned env r => exact happend _ (handle_guarded w.db env r)
  | ocsp call =>
    simp only [keyStep]
    cases hca : w.db.cas.get? call.caId with
    | none => exact hw
    | some ca => exact happend _ (ocsp_guarded (get?_self hca))
  | rotate env cfg caId draw stored =>
    simp only [keyStep]
    cases hca : w.db.cas.get? caId with
    | none => exact hw
    | some ca => exact (rotateOne_guarded hw (get?_self hca)).1
  | rotateAll env cfg only force draws stored =>
    exact rotateAll_guarded hw fun ca hca => Table.get?_key (List.mem_of_mem_filter hca)

/-- **(2) A pending or keyless CA signs nothing** but, as a new root, its own certificate. -/
theorem uses_guarded (lib : Lib) (db : Db) (responders : ℤ → Option X509) (ops : List KeyOp) :
    ∀ u ∈ (run (keyStep lib) ⟨db, responders, []⟩ ops).uses, Guarded u := by
  have hstart : ∀ u ∈ (⟨db, responders, []⟩ : KeySystem).uses, Guarded u := fun _ hu => absurd hu List.not_mem_nil
  have hstep : ∀ (w : KeySystem) (o : KeyOp), (∀ u ∈ w.uses, Guarded u) → ∀ u ∈ (keyStep lib w o).uses, Guarded u :=
    fun _ o h => step_guarded h o
  exact run_invariant hstep hstart ops

/-- a root is created pending, asked for a CRL, and approved -/
def approvedRoot : List KeyOp :=
  [.request (Env.at day) (.createRoot ⟨"Root".toList, "root".toList, "root".toList, 3650, none, none, .pending, 17,
    "key".toList⟩), .request (Env.at day) (.generateCrl 1), .request (Env.at day) (.approve 1)]

/-- it signs its own certificate, and its first CRL once it is approved -/
theorem uses_guarded_sample :
    (run (keyStep sampleLib) ⟨Db.empty, fun _ => none, []⟩ approvedRoot).uses.map (fun u => (u.caId, u.signed)) =
      [(1, .ownCertificate), (1, .crl)] ∧
    ∀ u ∈ (run (keyStep sampleLib) ⟨Db.empty, fun _ => none, []⟩ approvedRoot).uses, Guarded u :=
  ⟨by decide +kernel, uses_guarded sampleLib Db.empty (fun _ => none) approvedRoot⟩

end Chancery.Pki.Keys
