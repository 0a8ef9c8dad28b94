/-
Passphrase rotation is all or nothing. For every content of the encrypted columns, every pair of passphrases, every
encryption and every point at which an access fails or the process dies:

(1) as long as the command has not succeeded, what is committed is what was there before (`rotation_all_or_nothing`);
(2) when it has succeeded, every blob that is not empty has been replaced by one that decrypts under the new passphrase
to the payload the old one held under the current passphrase (`Rotated`);
(3) it ends: `Rotation.accessesLeft` bounds the accesses that are left.

(2) needs nothing of encryption, because each new blob is opened before it is written. The invariant (`Progress`) says which
columns the session has rotated, and in the column it is in, which rows.
-/
import Mathlib.Tactic
import Chancery.Services.Passphrase

namespace Chancery.Passphrase

open Chancery.Core

section Rotation

variable (E : Cipher) (current new : Text)

/-- what rotation makes of a row: the same payload under the new passphrase, unless there is no ciphertext -/
def RowRotated (r r' : SecretRow) : Prop :=
  if r.hasCiphertext then
    r'.id = r.id ∧ ∃ old blob payload, r.blob = some old ∧ r'.blob = some blob ∧ E.decrypt old current = .ok payload ∧
      E.decrypt blob new = .ok payload
  else r' = r

/-- the rows of `left` are still to be rotated -/
def RowUnderway (left : List SecretRow) (r r' : SecretRow) : Prop :=
  if r ∈ left then r' = r else RowRotated E current new r r'

/-- every row of every column is rotated -/
def Rotated (v v' : Vault) : Prop := ∀ c, (v c).Evolves (RowRotated E current new) (v' c)

/-- what the session has done to the columns `v` -/
def Progress (v : Vault) : RotatePhase → Prop
  | .columns todo pending _ =>
    todo.Nodup ∧ (∀ c ∈ todo, pending c = v c) ∧ ∀ c ∉ todo, (v c).Evolves (RowRotated E current new) (pending c)
  | .rows c left _ todo pending _ =>
    (c :: todo).Nodup ∧ left.Nodup ∧ (∀ r ∈ left, r ∈ v c ∧ r.hasCiphertext) ∧ (∀ d ∈ todo, pending d = v d) ∧
      (v c).Evolves (RowUnderway E current new left) (pending c) ∧
      ∀ d ∉ c :: todo, (v d).Evolves (RowRotated E current new) (pending d)
  | .rotated pending _ => Rotated E current new v pending
  | .audited pending _ => Rotated E current new v pending
  | _ => True

/-- a run that started from the columns `v` and the audit rows `audit` -/
def Invariant (v : Vault) (audit : List Stats) (s : Rotation) : Prop :=
  Progress E current new v s.phase ∧
    match s.phase with
    | .done stats => Rotated E current new v s.stored ∧ s.audit = audit ++ [stats]
    | _ => s.stored = v ∧ s.audit = audit

variable {E current new}

/-! ## Rows -/

theorem RowRotated.id_eq {r r' : SecretRow} (h : RowRotated E current new r r') : r'.id = r.id := by
  unfold RowRotated at h
  split_ifs at h
  · exact h.1
  · rw [h]

theorem RowUnderway.id_eq {left : List SecretRow} {r r' : SecretRow} (h : RowUnderway E current new left r r') :
    r'.id = r.id := by
  unfold RowUnderway at h
  split_ifs at h
  · rw [h]
  · exact h.id_eq

/-- a blob that was verified holds the payload of the old one -/
theorem rowRotated_of_rewrapVerified {drawn : ℕ} {c : SecretColumn} {r : SecretRow} {blob : Blob} (hr : r.hasCiphertext)
    (h : rewrapVerified E current new drawn c r = .ok blob) : RowRotated E current new r { r with blob := some blob } := by
  obtain ⟨old, hold⟩ : ∃ old, r.blob = some old := by
    cases hb : r.blob with
    | none => simp [SecretRow.hasCiphertext, hb] at hr
    | some old => exact ⟨old, rfl⟩
  simp only [rewrapVerified, hold, Option.getD_some] at h
  obtain ⟨blob', -, h⟩ := bind_eq_ok.1 h
  obtain ⟨fresh, hfresh, h⟩ := bind_eq_ok.1 h
  obtain ⟨payload, hpayload, h⟩ := bind_eq_ok.1 h
  split_ifs at h with hne
  cases h
  rw [ne_eq, not_not] at hne
  rw [RowRotated, if_pos hr]
  exact ⟨rfl, old, blob, payload, hold, rfl, hpayload, hne ▸ hfresh⟩

/-- nothing is done when the rows with a ciphertext are read -/
theorem evolves_rowsWithCiphertext {v : Vault} {c : SecretColumn} :
    (v c).Evolves (RowUnderway E current new (rowsWithCiphertext v c)) (v c) := by
  refine List.forall₂_same.2 fun r hr => ?_
  unfold RowUnderway
  split_ifs with hmem
  · rfl
  · have hr' : ¬ r.hasCiphertext := fun h => hmem (List.mem_filter.2 ⟨hr, h⟩)
    rw [RowRotated, if_neg hr']

theorem evolves_of_nothing_left {v : Vault} {c : SecretColumn} {t : Table SecretRow.id}
    (h : (v c).Evolves (RowUnderway E current new []) t) : (v c).Evolves (RowRotated E current new) t :=
  h.imp fun r r' hr => by simpa [RowUnderway] using hr

/-- writing the verified blob of the first row that is left -/
theorem Table.Evolves.write {t u : Table SecretRow.id} {r : SecretRow} {left : List SecretRow} {blob : Blob}
    (h : t.Evolves (RowUnderway E current new (r :: left)) u) (hr : r ∈ t) (hleft : r ∉ left)
    (hblob : RowRotated E current new r { r with blob := some blob }) :
    t.Evolves (RowUnderway E current new left) (u.update r.id (fun r => { r with blob := some blob }) fun _ => rfl) := by
  refine h.update_right fun a ha b _ hab => ?_
  by_cases hid : b.id = r.id
  · have har : a = r := Table.eq_of_key ha hr (hab.id_eq.symm.trans hid)
    subst har
    have hba : b = a := by simpa [RowUnderway] using hab
    subst hba
    rw [if_pos rfl, RowUnderway, if_neg hleft]
    exact hblob
  · have har : a ≠ r := fun h => hid (hab.id_eq.trans (congrArg _ h))
    rw [if_neg hid]
    simpa [RowUnderway, har] using hab

/-! ## Columns -/

theorem Vault.write_self (v : Vault) (c : SecretColumn) (id : ℤ) (blob : Blob) :
    v.write c id blob c = (v c).update id (fun r => { r with blob := some blob }) fun _ => rfl := by
  rw [Vault.write, Function.update_self]

theorem Vault.write_of_ne {v : Vault} {c d : SecretColumn} {id : ℤ} {blob : Blob} (h : d ≠ c) :
    v.write c id blob d = v d := by
  rw [Vault.write, Function.update_of_ne h]

theorem mem_registered (c : SecretColumn) : c ∈ registered := by
  cases c <;> decide

theorem progress_columns_registered (v : Vault) : Progress E current new v (.columns registered v []) := by
  refine ⟨by decide, fun c _ => rfl, fun c hc => ?_⟩
  exact absurd (mem_registered c) hc

theorem progress_rows {v pending : Vault} {c : SecretColumn} {todo : List SecretColumn} {stats : Stats}
    (h : Progress E current new v (.columns (c :: todo) pending stats)) :
    Progress E current new v (.rows c (rowsWithCiphertext pending c) 0 todo pending stats) := by
  obtain ⟨hnodup, htodo, hrest⟩ := h
  have hc : pending c = v c := htodo c List.mem_cons_self
  have hrows : rowsWithCiphertext pending c = rowsWithCiphertext v c := by
    rw [rowsWithCiphertext, hc, rowsWithCiphertext]
  rw [hrows]
  refine ⟨hnodup, (v c).nodup.filter _, fun r hr => ?_, fun d hd => htodo d (List.mem_cons_of_mem _ hd), ?_, hrest⟩
  · obtain ⟨hr, hciph⟩ := List.mem_filter.1 hr
    exact ⟨hr, hciph⟩
  · rw [hc]
    exact evolves_rowsWithCiphertext

theorem progress_columns {v pending : Vault} {c : SecretColumn} {count : ℕ} {todo : List SecretColumn}
    {stats stats' : Stats}
    (h : Progress E current new v (.rows c [] count todo pending stats)) :
    Progress E current new v (.columns todo pending stats') := by
  obtain ⟨hnodup, -, -, htodo, hc, hrest⟩ := h
  refine ⟨(List.nodup_cons.1 hnodup).2, htodo, fun d hd => ?_⟩
  by_cases hdc : d = c
  · subst hdc
    exact evolves_of_nothing_left hc
  · exact hrest d (by simp [hdc, hd])

theorem progress_write {v pending : Vault} {c : SecretColumn} {r : SecretRow} {left : List SecretRow} {count : ℕ}
    {todo : List SecretColumn} {stats : Stats} {drawn : ℕ} {blob : Blob}
    (h : Progress E current new v (.rows c (r :: left) count todo pending stats))
    (hblob : rewrapVerified E current new drawn c r = .ok blob) :
    Progress E current new v (.rows c left (count + 1) todo (pending.write c r.id blob) stats) := by
  obtain ⟨hnodup, hleft, hmem, htodo, hc, hrest⟩ := h
  obtain ⟨hr, hciph⟩ := hmem r List.mem_cons_self
  obtain ⟨hrleft, hleft⟩ := List.nodup_cons.1 hleft
  have hne : ∀ d ∈ todo, d ≠ c := by
    rintro d hd rfl
    exact (List.nodup_cons.1 hnodup).1 hd
  refine ⟨hnodup, hleft, fun r' hr' => hmem r' (List.mem_cons_of_mem _ hr'), fun d hd => ?_, ?_, fun d hd => ?_⟩
  · rw [Vault.write_of_ne (hne d hd)]
    exact htodo d hd
  · rw [Vault.write_self]
    exact Table.Evolves.write hc hr hrleft (rowRotated_of_rewrapVerified hciph hblob)
  · rw [Vault.write_of_ne (List.ne_of_not_mem_cons hd)]
    exact hrest d hd

/-! ## Steps -/

/-- a step that commits nothing -/
theorem Invariant.phase {v : Vault} {audit : List Stats} {s : Rotation} (hs : Invariant E current new v audit s)
    (hopen : s.phase.isFinal = false) {phase : RotatePhase} (hphase : ∀ stats, phase ≠ .done stats)
    (h : Progress E current new v phase) : Invariant E current new v audit { s with phase } := by
  have hkept : s.stored = v ∧ s.audit = audit := by
    obtain ⟨-, hs⟩ := hs
    cases hp : s.phase <;> simp_all [RotatePhase.isFinal]
  refine ⟨h, ?_⟩
  cases phase with
  | done stats => exact absurd rfl (hphase stats)
  | _ => exact hkept

theorem rotateStep_invariant {v : Vault} {audit : List Stats} (s : Rotation) (e : RotateEvent)
    (hs : Invariant E current new v audit s) : Invariant E current new v audit (rotateStep E current new s e) := by
  by_cases hopen : s.phase.isFinal = true
  · have hstay : rotateStep E current new s e = s := if_pos hopen
    rwa [hstay]
  rw [Bool.not_eq_true] at hopen
  have hprogress := hs.1
  simp only [rotateStep, hopen, Bool.false_eq_true, if_false]
  cases e with
  | fail err => exact hs.phase hopen (by simp) trivial
  | die => exact hs.phase hopen (by simp) trivial
  | next drawn =>
    obtain ⟨stored, log, phase⟩ := s
    cases phase with
    | gate todo =>
      cases todo with
      | nil =>
        obtain ⟨rfl, -⟩ : stored = v ∧ log = audit := hs.2
        exact hs.phase hopen (by simp) (progress_columns_registered _)
      | cons c todo =>
        dsimp only
        split
        · exact hs.phase hopen (by simp) trivial
        · exact hs.phase hopen (by simp) trivial
    | columns todo pending stats =>
      cases todo with
      | nil => exact hs.phase hopen (by simp) fun c => hprogress.2.2 c List.not_mem_nil
      | cons c todo => exact hs.phase hopen (by simp) (progress_rows hprogress)
    | rows c left count todo pending stats =>
      cases left with
      | nil => exact hs.phase hopen (by simp) (progress_columns hprogress)
      | cons r left =>
        dsimp only
        split
        · exact hs.phase hopen (by simp) trivial
        · exact hs.phase hopen (by simp) (progress_write hprogress ‹_›)
    | rotated pending stats => exact hs.phase hopen (by simp) hprogress
    | audited pending stats =>
      obtain ⟨-, rfl⟩ : stored = v ∧ log = audit := hs.2
      exact ⟨trivial, hprogress, rfl⟩
    | raised e => simp [RotatePhase.isFinal] at hopen
    | died => simp [RotatePhase.isFinal] at hopen
    | done stats => simp [RotatePhase.isFinal] at hopen

/-! ## Accesses that are left -/

/-- accesses for the columns that are left, and for the end -/
def columnAccesses (todo : List SecretColumn) (v : Vault) : ℕ := (todo.map fun c => (v c).rows.length + 2).sum + 3

/-- at most so many accesses are left -/
def RotatePhase.remaining (stored : Vault) : RotatePhase → ℕ
  | .gate todo => todo.length + 1 + columnAccesses registered stored
  | .columns todo pending _ => columnAccesses todo pending
  | .rows _ left _ todo pending _ => left.length + 1 + columnAccesses todo pending
  | .rotated _ _ => 2
  | .audited _ _ => 1
  | _ => 0

def Rotation.accessesLeft (s : Rotation) : ℕ := s.phase.remaining s.stored

theorem columnAccesses_write (todo : List SecretColumn) (v : Vault) (c : SecretColumn) (id : ℤ) (blob : Blob) :
    columnAccesses todo (v.write c id blob) = columnAccesses todo v := by
  have hlength : ∀ d, (v.write c id blob d).rows.length = (v d).rows.length := by
    intro d
    by_cases hd : d = c
    · subst hd
      rw [Vault.write_self, Table.rows_update, List.length_map]
    · rw [Vault.write_of_ne hd]
  simp only [columnAccesses, hlength]

theorem isFinal_of_remaining {stored : Vault} {phase : RotatePhase} (h : phase.remaining stored = 0) : phase.isFinal := by
  cases phase <;> simp_all [RotatePhase.remaining, RotatePhase.isFinal, columnAccesses]

theorem rotateStep_accessesLeft (s : Rotation) (e : RotateEvent) :
    (rotateStep E current new s e).accessesLeft ≤ s.accessesLeft - 1 := by
  obtain ⟨stored, log, phase⟩ := s
  unfold rotateStep Rotation.accessesLeft
  split_ifs with hfinal
  · cases phase <;> simp_all [RotatePhase.remaining, RotatePhase.isFinal]
  cases e with
  | fail err => simp [RotatePhase.remaining]
  | die => simp [RotatePhase.remaining]
  | next drawn =>
    cases phase with
    | gate todo =>
      cases todo with
      | nil => simp [RotatePhase.remaining]
      | cons c todo =>
        dsimp only
        split
        · simp [RotatePhase.remaining]
        · simp only [RotatePhase.remaining, List.length_cons]
          omega
    | columns todo pending stats =>
      cases todo with
      | nil => simp [RotatePhase.remaining, columnAccesses]
      | cons c todo =>
        have hle : (rowsWithCiphertext pending c).length ≤ (pending c).rows.length := List.length_filter_le _ _
        simp only [RotatePhase.remaining, columnAccesses, List.map_cons, List.sum_cons]
        omega
    | rows c left count todo pending stats =>
      cases left with
      | nil =>
        simp only [RotatePhase.remaining, List.length_nil]
        omega
      | cons r left =>
        dsimp only
        split
        · simp [RotatePhase.remaining]
        · simp only [RotatePhase.remaining, columnAccesses_write, List.length_cons]
          omega
    | _ => simp [RotatePhase.remaining]

/-! ## Runs -/

/-- **Rotation is all or nothing.** Whatever the columns hold, whatever encryption does and wherever an access fails or the
process dies: until the command succeeds the committed columns and audit rows are the old ones; when it has, every
ciphertext of every column holds under the new passphrase the payload it held under the current one, and the audit row is
there. After `accessesLeft` accesses it has ended. -/
theorem rotation_all_or_nothing (E : Cipher) (current new : Text) (v : Vault) (audit : List Stats)
    (events : List RotateEvent) :
    let s := run (rotateStep E current new) (Rotation.start v audit) events
    ((∀ stats, s.phase ≠ .done stats) → s.stored = v ∧ s.audit = audit) ∧
      (∀ stats, s.phase = .done stats → Rotated E current new v s.stored ∧ s.audit = audit ++ [stats]) ∧
      ((Rotation.start v audit).accessesLeft ≤ events.length → s.phase.isFinal) := by
  intro s
  have hstart : Invariant E current new v audit (Rotation.start v audit) := ⟨trivial, rfl, rfl⟩
  have hinv : Invariant E current new v audit s := run_invariant rotateStep_invariant hstart events
  refine ⟨fun hopen => ?_, fun stats hdone => ?_, fun hlength => ?_⟩
  · obtain ⟨-, h⟩ := hinv
    cases hp : s.phase with
    | done stats => exact absurd hp (hopen stats)
    | _ => simpa [hp] using h
  · simpa [hdone] using hinv.2
  · have hzero : s.accessesLeft = 0 := run_measure_eq_zero rotateStep_accessesLeft hlength
    exact isFinal_of_remaining hzero

/-- a webhook secret is rotated by a cipher that writes the length of the passphrase before the payload -/
example :
    let E : Cipher :=
      { decrypt := fun blob passphrase =>
          if blob.head? = some (UInt8.ofNat passphrase.length) then .ok blob.tail else .error (.other "InvalidToken")
        encrypt := fun _ passphrase payload => .ok (UInt8.ofNat passphrase.length :: payload) }
    let v : Vault := fun c => if c = .webhookSecret then ⟨[⟨1, some [3, 42]⟩, ⟨2, some []⟩], by simp⟩ else .empty
    let s := run (rotateStep E "old".toList "newer".toList) (Rotation.start v []) (List.replicate 26 (.next 0))
    s.phase.isFinal ∧ s.audit.length = 1 ∧ (s.stored .webhookSecret).rows = [⟨1, some [5, 42]⟩, ⟨2, some []⟩] := by
  decide +kernel

end Rotation

end Chancery.Passphrase
