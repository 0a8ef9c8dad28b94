/-
What CAs refer to when profiles come and go.

A CA refers to profiles by id, in its ACME setting and in its allow-list. `delete` counts the certificates and the CSRs of a
profile, but not these references, although the API says that a profile referenced by a CA is not deleted. An ACME setting
that lost its profile falls back to `custom`, and the id of a deleted row goes to the next profile that is created. The
births of the profiles, the profile an administrator chose for ACME, and the profiles a list stood for when it was set are
not in the code: they tell two profiles apart that had the same id at different times.

1. `references_kept`: if no profile is deleted while a CA refers to it, then in every run each ACME certificate of a CA with
   an ACME setting is under the chosen profile, and an entry of an allow-list authorises only the profile it stood for.
2. `deleted_acme_profile`, `deleted_list_entry`: without it, ACME issues under `custom` or under a later profile, and a list
   authorises a profile that nobody put into it.
-/
import Mathlib.Tactic
import Chancery.Scenarios.AllowList

namespace Chancery.Profiles

open Chancery.Core
open Chancery.Pki (Env)

variable {lib : Pki.Lib} {plib : ProfileLib}

/-! ## Tables that keep their rows -/

/-- rows stay, the built-in `custom` stays the first of its key, and ids stay positive -/
structure Keeps (t t' : ProfileTable) : Prop where
  rows : ∀ i, (t.get? i).isSome = true → (t'.get? i).isSome = true
  custom : ∀ p, byKey t "custom" = some p → p.isBuiltin = true →
    ∃ p', byKey t' "custom" = some p' ∧ p'.id = p.id ∧ p'.isBuiltin = true
  positive : (∀ p ∈ t, 0 < p.id) → ∀ p ∈ t', 0 < p.id

theorem Keeps.refl (t : ProfileTable) : Keeps t t := ⟨fun _ h => h, fun p hp hb => ⟨p, hp, rfl, hb⟩, fun h => h⟩

theorem Keeps.trans {t u v : ProfileTable} (h : Keeps t u) (h' : Keeps u v) : Keeps t v where
  rows := fun i hi => h'.rows i (h.rows i hi)
  custom := by
    intro p hp hb
    obtain ⟨q, hq, hid, hqb⟩ := h.custom p hp hb
    obtain ⟨r, hr, hid', hrb⟩ := h'.custom q hq hqb
    exact ⟨r, hr, hid'.trans hid, hrb⟩
  positive := fun hpos => h'.positive (h.positive hpos)

theorem nextKey_pos {t : ProfileTable} (h : ∀ p ∈ t, 0 < p.id) : 0 < t.nextKey := by
  rw [Table.nextKey_eq]
  cases hlast : t.rows.getLast? with
  | none => exact one_pos
  | some p =>
    have hp := h p (List.mem_of_getLast? hlast)
    show 0 < p.id + 1
    omega

theorem keeps_insert {t : ProfileTable} {mk : ℤ → Profile} {hmk : ∀ k, (mk k).id = k} : Keeps t (t.insert mk hmk) where
  rows := by
    intro i hi
    obtain ⟨p, hp⟩ := Option.isSome_iff_exists.1 hi
    rw [Table.get?_insert_of_some hp]
    rfl
  custom := by
    intro p hp hb
    refine ⟨p, ?_, rfl, hb⟩
    unfold byKey at hp ⊢
    rw [Table.rows_insert, List.find?_append, hp]
    rfl
  positive := by
    intro hpos p hp
    rcases Table.mem_insert.1 hp with hp | rfl
    · exact hpos p hp
    · rw [hmk]
      exact nextKey_pos hpos

theorem keeps_update {t : ProfileTable} {k : ℤ} {f : Profile → Profile} {hf : ∀ p, (f p).id = p.id}
    (hkey : ∀ p ∈ t, p.id = k → (f p).key = p.key ∧ (f p).isBuiltin = p.isBuiltin) : Keeps t (t.update k f hf) where
  rows := by
    intro i hi
    obtain ⟨p, hp⟩ := Option.isSome_iff_exists.1 hi
    rw [Table.get?_update, hp]
    split_ifs <;> rfl
  custom := by
    intro p hp hb
    have hmem : p ∈ t := List.mem_of_find?_eq_some hp
    refine ⟨if p.id = k then f p else p, ?_, ?_, ?_⟩
    · unfold byKey at hp ⊢
      rw [Table.rows_update, List.find?_map]
      have hsame : t.rows.find? ((fun q => q.key == "custom") ∘ fun q => if q.id = k then f q else q) =
          t.rows.find? (fun q => q.key == "custom") := by
        refine List.find?_congr fun q hq => ?_
        show ((if q.id = k then f q else q).key == "custom") = (q.key == "custom")
        split_ifs with hid
        · rw [(hkey q hq hid).1]
        · rfl
      rw [hsame, hp]
      rfl
    · split_ifs
      · exact hf p
      · rfl
    · split_ifs with hid
      · rw [(hkey p hmem hid).2, hb]
      · exact hb
  positive := by
    intro hpos p hp
    obtain ⟨q, hq, rfl⟩ := Table.mem_update.1 hp
    have hqpos := hpos q hq
    split_ifs
    · rw [hf]
      exact hqpos
    · exact hqpos

theorem keeps_foldl {α : Type} {f : ProfileTable → α → ProfileTable} (hf : ∀ t a, Keeps t (f t a)) (l : List α)
    (t : ProfileTable) : Keeps t (l.foldl f t) := by
  induction l generalizing t with
  | nil => exact Keeps.refl t
  | cons a l ih => exact (hf t a).trans (ih (f t a))

theorem keeps_ensureBuiltins (t : ProfileTable) : Keeps t (ensureBuiltins t) := by
  refine keeps_foldl (fun t b => ?_) builtins t
  unfold ensureBuiltin
  split_ifs
  · exact Keeps.refl t
  · exact keeps_insert

theorem keeps_toggle (t : ProfileTable) (profileId : ℤ) : Keeps t (toggle t profileId) :=
  keeps_update fun _ _ _ => ⟨rfl, rfl⟩

/-- `_apply` writes neither the key nor `is_builtin` -/
theorem apply_keeps {row p : Profile} {fields : Fields} (h : apply plib row fields = .ok p) :
    p.key = row.key ∧ p.isBuiltin = row.isBuiltin := by
  unfold apply at h
  obtain ⟨_, _, h⟩ := bind_eq_ok.1 h
  obtain ⟨_, _, h⟩ := bind_eq_ok.1 h
  obtain ⟨_, _, h⟩ := bind_eq_ok.1 h
  obtain ⟨_, _, h⟩ := bind_eq_ok.1 h
  obtain ⟨_, _, h⟩ := bind_eq_ok.1 h
  obtain ⟨_, _, h⟩ := bind_eq_ok.1 h
  obtain ⟨_, _, h⟩ := bind_eq_ok.1 h
  obtain ⟨_, _, h⟩ := bind_eq_ok.1 h
  rw [← Except.ok.inj h]
  exact ⟨rfl, rfl⟩

theorem keeps_addProfile {t t' : ProfileTable} {key : String} {isBuiltin : Bool} {fields : Fields}
    (h : addProfile plib t key isBuiltin fields = .ok t') : Keeps t t' := by
  obtain ⟨row, _, h⟩ := bind_eq_ok.1 h
  rw [← Except.ok.inj h]
  exact keeps_insert

theorem keeps_writeProfile {t t' : ProfileTable} {row : Profile} {fields : Fields} (hrow : row ∈ t)
    (h : writeProfile plib t row fields = .ok t') : Keeps t t' := by
  obtain ⟨new, hnew, h⟩ := bind_eq_ok.1 h
  rw [← Except.ok.inj h]
  refine keeps_update fun p hp hid => ?_
  rw [Table.eq_of_key hp hrow hid]
  have hkept := apply_keeps hnew
  exact ⟨hkept.1, hkept.2⟩

theorem keeps_create {t t' : ProfileTable} {fields : Fields} (h : create plib t fields = .ok t') : Keeps t t' := by
  obtain ⟨_, _, h⟩ := bind_eq_ok.1 h
  obtain ⟨_, _, h⟩ := bind_eq_ok.1 h
  exact keeps_addProfile h

theorem keeps_writeUpdate {t t' : ProfileTable} {row : Profile} {fields : Fields} (hrow : row ∈ t)
    (h : update plib t row fields = .ok t') : Keeps t t' := by
  obtain ⟨_, _, h⟩ := bind_eq_ok.1 h
  exact keeps_writeProfile hrow h

theorem keeps_importItem {t t' : ProfileTable} {replace : Bool} {item : Json}
    (h : importItem plib replace t item = .ok t') : Keeps t t' := by
  cases item with
  | obj fields =>
    obtain ⟨key, _, h⟩ := bind_eq_ok.1 h
    by_cases hkey : key = ""
    · rw [if_pos hkey] at h
      cases h
    rw [if_neg hkey] at h
    cases hrow : byKey t key with
    | none =>
      rw [hrow] at h
      obtain ⟨_, _, h⟩ := bind_eq_ok.1 h
      exact keeps_addProfile h
    | some row =>
      rw [hrow] at h
      simp only [] at h
      split_ifs at h
      · obtain ⟨_, _, h⟩ := bind_eq_ok.1 h
        exact keeps_writeProfile (List.mem_of_find?_eq_some hrow) h
      · rw [← Except.ok.inj h]
        exact Keeps.refl t
  | _ => cases h

theorem keeps_importProfiles {replace : Bool} {items : List Json} {t t' : ProfileTable}
    (h : importProfiles plib replace items t = .ok t') : Keeps t t' := by
  induction items generalizing t with
  | nil => rw [← Except.ok.inj h]; exact Keeps.refl t
  | cons item items ih =>
    obtain ⟨u, hu, h⟩ := bind_eq_ok.1 h
    exact (keeps_importItem hu).trans (ih h)

/-- what a deletion keeps: all rows but its own, which is no built-in one -/
theorem delete_ok {t t' : ProfileTable} {row : Profile} {used : ℕ × ℕ} (hrow : row ∈ t) (h : delete t row used = .ok t') :
    row.isBuiltin = false ∧ used = (0, 0) ∧
      (∀ i, i ≠ row.id → t'.get? i = t.get? i) ∧
      (∀ p, byKey t "custom" = some p → p.isBuiltin = true → byKey t' "custom" = some p) ∧
      ((∀ p ∈ t, 0 < p.id) → ∀ p ∈ t', 0 < p.id) := by
  unfold delete at h
  split_ifs at h with hbuiltin hused
  rw [← Except.ok.inj h]
  have hnot : row.isBuiltin = false := by simpa using hbuiltin
  refine ⟨hnot, ?_, fun i hi => ?_, fun p hp hb => ?_, fun hpos p hp => hpos p (List.mem_of_mem_filter hp)⟩
  · rw [not_or, not_not, not_not] at hused
    exact Prod.ext hused.1 hused.2
  · unfold Table.get?
    show (t.rows.filter (fun p => p.id ≠ row.id)).find? (fun p => p.id == i) = t.rows.find? fun p => p.id == i
    rw [List.find?_filter]
    refine List.find?_congr fun p _ => ?_
    by_cases hpi : p.id = i
    · simp [hpi, hi]
    · simp [hpi]
  · unfold byKey at hp ⊢
    show (t.rows.filter (fun q => q.id ≠ row.id)).find? (fun q => q.key == "custom") = some p
    obtain ⟨hkey, before, after, heq, hbefore⟩ := List.find?_eq_some_iff_append.1 hp
    have hmem : p ∈ t := List.mem_of_find?_eq_some hp
    have hne : p.id ≠ row.id := by
      intro hid
      rw [Table.eq_of_key hmem hrow hid, hnot] at hb
      cases hb
    have hfirst : (before.filter fun q => q.id ≠ row.id).find? (fun q => q.key == "custom") = none := by
      refine List.find?_eq_none.2 fun q hq => ?_
      simpa using hbefore q (List.mem_of_mem_filter hq)
    have hkept : decide (p.id ≠ row.id) = true := decide_eq_true hne
    rw [heq, List.filter_append, List.filter_cons_of_pos (p := fun q : Profile => decide (q.id ≠ row.id)) hkept,
      List.find?_append, hfirst, Option.none_or,
      List.find?_cons_of_pos (p := fun q : Profile => q.key == "custom") hkey]

/-! ## The allow-list, read back -/

theorem intItems_nums (lib : ProfileLib) (l : List ℤ) : intItems lib (l.map Json.num) = some l := by
  unfold intItems
  rw [List.mapM_map]
  induction l with
  | nil => rfl
  | cons n l ih =>
    rw [List.mapM_cons, ih]
    rfl

/-- a stored list is read back, sorted -/
theorem allowedProfileIds_stored {c : CaSettings} {ids : List ℤ} (hc : c.allowedProfilesJson = storedAllowList (some ids))
    (hne : ids ≠ []) : allowedProfileIds plib c = some (ids.toFinset.sort (· ≤ ·)) := by
  have hwritten : ∀ l : List ℤ, (Json.arr (l.map Json.num)).Written plib.floats := by
    intro l
    induction l with
    | nil => trivial
    | cons n l ih => exact ⟨trivial, ih⟩
  unfold allowedProfileIds
  rw [hc, storedAllowList]
  simp only [if_neg hne, load_dumps (hwritten _), intItems_nums]

theorem allowedProfileIds_none {c : CaSettings} (hc : c.allowedProfilesJson = none) : allowedProfileIds plib c = none := by
  unfold allowedProfileIds
  rw [hc]
  rfl

theorem mem_of_lookupAll {t : ProfileTable} {raws : List Text} {ids : List ℤ} (h : lookupAll plib t raws = .ok ids) :
    ∀ i ∈ ids, (t.get? i).isSome = true := by
  induction raws generalizing ids with
  | nil =>
    rw [← Except.ok.inj h]
    intro i hi
    cases hi
  | cons raw raws ih =>
    obtain ⟨found, hfound, h⟩ := bind_eq_ok.1 h
    cases found with
    | none => cases h
    | some p =>
      obtain ⟨rest, hrest, h⟩ := bind_eq_ok.1 h
      rw [← Except.ok.inj h]
      intro i hi
      rcases List.mem_cons.1 hi with rfl | hi
      · rw [Table.get?_key (mem_of_lookup hfound)]
        rfl
      · exact ih hrest i hi

/-- the ids a list was set to are ids of rows -/
theorem stored_of_parse {t : ProfileTable} {form : AllowForm} {ids : Option (List ℤ)} {c : CaSettings}
    (h : parseAllowedProfiles plib t form = .ok ids) (hc : c.allowedProfilesJson = storedAllowList ids) {l : List ℤ}
    (hl : allowedProfileIds plib c = some l) : ∀ i ∈ l, (t.get? i).isSome = true := by
  unfold parseAllowedProfiles at h
  split_ifs at h with hrestrict
  · rw [← Except.ok.inj h] at hc
    rw [allowedProfileIds_none hc] at hl
    cases hl
  · obtain ⟨raws, hraws, h⟩ := bind_eq_ok.1 h
    split_ifs at h with hne
    rw [← Except.ok.inj h] at hc
    rw [allowedProfileIds_stored hc hne] at hl
    intro i hi
    rw [← Option.some.inj hl, Finset.mem_sort, List.mem_toFinset] at hi
    exact mem_of_lookupAll hraws i hi

/-! ## Births -/

/-- the id of a profile, and when its row was added -/
abbrev Identity := ℤ × ℕ

/-- an ACME certificate: the profile chosen for its CA, and the one it was issued under -/
structure AcmeIssuance where
  chosen : Option Identity
  issued : Option Identity
deriving DecidableEq

structure Archive where
  site : Site
  clock : ℕ
  /-- by profile id -/
  born : ℤ → ℕ
  /-- by CA id: the profile chosen for ACME; none: no ACME setting was saved -/
  chosen : ℤ → Option Identity
  /-- by CA id and profile id: the birth of the profile that the entry of the list stood for -/
  listed : ℤ → ℤ → ℕ
  issued : List AcmeIssuance

/-- the profile id an ACME setting stands for -/
def acmeTarget (s : Site) (caId : ℤ) : Option ℤ :=
  match (s.settings caId).acmeProfileId with
  | some i => some i
  | none => (byKey s.profiles "custom").map (·.id)

/-- the births after an operation: an id that had no row belongs to a new one -/
def Archive.births (a : Archive) : ℤ → ℕ := fun i => if (a.site.profiles.get? i).isSome then a.born i else a.clock + 1

/-- the CA whose ACME setting an operation saves -/
def acmeSaved (lib : Pki.Lib) (plib : ProfileLib) (s : Site) : Op plib → Option ℤ
  | .setAcme env caId form => if (setAcme lib plib env caId form s).2.toBool then some caId else none
  | _ => none

/-- the CA whose list an operation saves -/
def listSaved (lib : Pki.Lib) (plib : ProfileLib) (s : Site) : Op plib → Option ℤ
  | .setProfiles caId form => if (setProfiles plib caId form s).2.toBool then some caId else none
  | .createCa env request form =>
    let r := createCa lib plib env request.1 form s
    if r.2.toBool then some r.1.db.lastCa else none
  | _ => none

/-- the ACME certificate an operation issues -/
def acmeEntry (lib : Pki.Lib) (plib : ProfileLib) (a : Archive) : Op plib → List AcmeIssuance
  | .issue required env (.acme caId csr days form) =>
    let s' := (issue lib plib required env a.site (.acme caId csr days form)).1
    if s'.hasLeaf a.site.nextLeaf then
      [⟨a.chosen caId, (s'.columns a.site.nextLeaf).profileId.map fun i => (i, a.born i)⟩]
    else []
  | _ => []

def Archive.step (lib : Pki.Lib) (plib : ProfileLib) (a : Archive) (o : Op plib) : Archive :=
  let s' := Profiles.step lib plib a.site o
  { site := s'
    clock := a.clock + 1
    born := a.births
    chosen := fun caId =>
      if acmeSaved lib plib a.site o = some caId then (acmeTarget s' caId).map fun i => (i, a.births i) else a.chosen caId
    listed := fun caId => if listSaved lib plib a.site o = some caId then a.births else a.listed caId
    issued := a.issued ++ acmeEntry lib plib a o }

/-- after a start of the application on a database without profiles -/
def Archive.start (db : Pki.Db) : Archive := ⟨Site.start db, 0, fun _ => 0, fun _ => none, fun _ _ => 0, []⟩

/-- ACME certificates are under the chosen profile, and entries authorise what they stood for -/
structure Archive.Faithful (plib : ProfileLib) (a : Archive) : Prop where
  acme : ∀ e ∈ a.issued, ∀ k, e.chosen = some k → e.issued = some k
  list : ∀ caId ids, allowedProfileIds plib (a.site.settings caId) = some ids →
    ∀ p ∈ a.site.profiles, p.id ∈ ids → a.born p.id = a.listed caId p.id

/-- no CA refers to this id -/
def Unreferenced (plib : ProfileLib) (s : Site) (profileId : ℤ) : Prop :=
  ∀ caId, (s.settings caId).acmeProfileId ≠ some profileId ∧
    ∀ ids, allowedProfileIds plib (s.settings caId) = some ids → profileId ∉ ids

/-- a profile that `delete` would let go is not referred to by a CA -/
def SparesReferences (plib : ProfileLib) (a : Archive) : Op plib → Prop
  | .profileDelete profileId =>
    ∀ row, a.site.profiles.get? profileId = some row → row.isBuiltin = false → a.site.usageCounts profileId = (0, 0) →
      Unreferenced plib a.site profileId
  | _ => True

/-- the references lead to the rows they were made for -/
structure Archive.Sound (plib : ProfileLib) (a : Archive) : Prop where
  positive : ∀ p ∈ a.site.profiles, 0 < p.id
  custom : ∃ p, byKey a.site.profiles "custom" = some p ∧ p.isBuiltin = true
  setting : ∀ caId i, (a.site.settings caId).acmeProfileId = some i → (a.site.profiles.get? i).isSome = true
  chosen : ∀ caId k, a.chosen caId = some k →
    acmeTarget a.site caId = some k.1 ∧ (a.site.profiles.get? k.1).isSome = true ∧ a.born k.1 = k.2
  list : ∀ caId ids, allowedProfileIds plib (a.site.settings caId) = some ids →
    ∀ i ∈ ids, (a.site.profiles.get? i).isSome = true ∧ a.born i = a.listed caId i

/-! ## What an operation does to profiles and references -/

/-- what an operation does to the references -/
structure SettingsEffect (lib : Pki.Lib) (plib : ProfileLib) (s : Site) (o : Op plib) (s' : Site) : Prop where
  keepsAcme : ∀ caId, acmeSaved lib plib s o ≠ some caId → (s'.settings caId).acmeProfileId =
    (s.settings caId).acmeProfileId
  keepsList : ∀ caId, listSaved lib plib s o ≠ some caId →
    (s'.settings caId).allowedProfilesJson = (s.settings caId).allowedProfilesJson
  acme : ∀ caId, acmeSaved lib plib s o = some caId → ∀ i, (s'.settings caId).acmeProfileId = some i →
    (s.profiles.get? i).isSome = true
  list : ∀ caId, listSaved lib plib s o = some caId → ∀ ids, allowedProfileIds plib (s'.settings caId) = some ids →
    ∀ i ∈ ids, (s.profiles.get? i).isSome = true

theorem settingsEffect_of_eq {s s' : Site} {o : Op plib} (h : s'.settings = s.settings) (ha : acmeSaved lib plib s o = none)
    (hl : listSaved lib plib s o = none) : SettingsEffect lib plib s o s' where
  keepsAcme := fun caId _ => by rw [h]
  keepsList := fun caId _ => by rw [h]
  acme := fun caId hc => by rw [ha] at hc; cases hc
  list := fun caId hc => by rw [hl] at hc; cases hc

theorem withProfiles_settings (s : Site) (r : Except PyError ProfileTable) :
    (s.withProfiles r).1.settings = s.settings := by
  cases r <;> rfl

theorem withProfile_settings (s : Site) (profileId : ℤ) (f : Profile → Except PyError ProfileTable) :
    (withProfile s profileId f).1.settings = s.settings := by
  unfold withProfile
  split
  · rfl
  · exact withProfiles_settings s _

theorem parseAcmeProfile_mem {t : ProfileTable} {allowed : Option (List ℤ)} {form : AcmeForm} {p : Profile}
    (h : parseAcmeProfile plib t allowed form = .ok (some p)) : p ∈ t := by
  unfold parseAcmeProfile at h
  by_cases hraw : strip (form.acmeProfile.getD []) = [] ∨ strip (form.acmeProfile.getD []) = "custom".toList
  · rw [if_pos hraw] at h
    cases h
  rw [if_neg hraw] at h
  obtain ⟨found, hfound, h⟩ := bind_eq_ok.1 h
  cases found with
  | none => cases h
  | some q =>
    simp only [] at h
    split_ifs at h
    rw [← Option.some.inj (Except.ok.inj h)]
    exact mem_of_lookup hfound

theorem settings_setSettings (s : Site) (caId c : ℤ) (f : CaSettings → CaSettings) :
    (s.setSettings caId f).settings c = if c = caId then f (s.settings caId) else s.settings c :=
  Function.update_apply _ _ _ _

/-- a saved list -/
theorem effect_of_list {s s₁ : Site} {o : Op plib} {caId : ℤ} {form : AllowForm} {ids : Option (List ℤ)}
    (hs₁ : s₁.settings = s.settings) (ha : acmeSaved lib plib s o = none) (hl : listSaved lib plib s o = some caId)
    (hids : parseAllowedProfiles plib s.profiles form = .ok ids) :
    SettingsEffect lib plib s o (s₁.setSettings caId fun c => { c with allowedProfilesJson := storedAllowList ids }) where
  keepsAcme := by
    intro c _
    rw [settings_setSettings, hs₁]
    split_ifs with hc
    · rw [hc]
    · rfl
  keepsList := by
    intro c hc
    have hne : c ≠ caId := by
      rintro rfl
      exact hc hl
    rw [settings_setSettings, if_neg hne, hs₁]
  acme := by
    intro c hc
    rw [ha] at hc
    cases hc
  list := by
    intro c hc l hlist i hi
    rw [hl] at hc
    rw [settings_setSettings, if_pos (Option.some.inj hc).symm] at hlist
    exact stored_of_parse hids rfl hlist i hi

/-- a saved ACME setting -/
theorem effect_of_acme {s s₁ : Site} {o : Op plib} {caId : ℤ} {p : Option Profile} (hs₁ : s₁.settings = s.settings)
    (ha : acmeSaved lib plib s o = some caId) (hl : listSaved lib plib s o = none)
    (hp : ∀ q, p = some q → q ∈ s.profiles) :
    SettingsEffect lib plib s o (s₁.setSettings caId fun c => { c with acmeProfileId := p.map (·.id) }) where
  keepsAcme := by
    intro c hc
    have hne : c ≠ caId := by
      rintro rfl
      exact hc ha
    rw [settings_setSettings, if_neg hne, hs₁]
  keepsList := by
    intro c _
    rw [settings_setSettings, hs₁]
    split_ifs with hc
    · rw [hc]
    · rfl
  acme := by
    intro c hc i hi
    rw [ha] at hc
    rw [settings_setSettings, if_pos (Option.some.inj hc).symm] at hi
    obtain ⟨q, hq, rfl⟩ := Option.map_eq_some_iff.1 hi
    rw [Table.get?_key (hp q hq)]
    rfl
  list := by
    intro c hc
    rw [hl] at hc
    cases hc

theorem setProfiles_effect (s : Site) (caId : ℤ) (form : AllowForm) :
    SettingsEffect lib plib s (.setProfiles caId form) (setProfiles plib caId form s).1 := by
  have hsaved : listSaved lib plib s (.setProfiles caId form) =
      if (setProfiles plib caId form s).2.toBool then some caId else none := rfl
  have hacme : acmeSaved lib plib s (.setProfiles caId form) = none := rfl
  unfold setProfiles at hsaved ⊢
  cases hca : s.db.cas.get? caId with
  | none => rw [hca] at hsaved; exact settingsEffect_of_eq rfl hacme hsaved
  | some ca =>
    cases hids : parseAllowedProfiles plib s.profiles form with
    | error e => rw [hca, hids] at hsaved; exact settingsEffect_of_eq rfl hacme hsaved
    | ok ids => rw [hca, hids] at hsaved; exact effect_of_list rfl hacme hsaved hids

theorem setAcme_effect (s : Site) (env : Env) (caId : ℤ) (form : AcmeForm) :
    SettingsEffect lib plib s (.setAcme env caId form) (setAcme lib plib env caId form s).1 := by
  have hsaved : acmeSaved lib plib s (.setAcme env caId form) =
      if (setAcme lib plib env caId form s).2.toBool then some caId else none := rfl
  have hlist : listSaved lib plib s (.setAcme env caId form) = none := rfl
  unfold setAcme at hsaved ⊢
  cases hca : s.db.cas.get? caId with
  | none => rw [hca] at hsaved; exact settingsEffect_of_eq rfl hsaved hlist
  | some ca =>
    cases hp : parseAcmeProfile plib s.profiles (allowedProfileIds plib (s.settings caId)) form with
    | error e => rw [hca, hp] at hsaved; exact settingsEffect_of_eq rfl hsaved hlist
    | ok p =>
      rcases hr : Pki.handle lib s.db env (.setAcme caId form.enable) with ⟨db, e | u⟩
      · rw [hca, hp, hr] at hsaved
        exact settingsEffect_of_eq rfl hsaved hlist
      · rw [hca, hp, hr] at hsaved
        have heffect := @effect_of_acme lib plib s { s with db := db } (.setAcme env caId form) caId p rfl hsaved hlist
          fun q hq => parseAcmeProfile_mem (hq ▸ hp)
        exact heffect

theorem createCa_effect (s : Site) (env : Env) (request : { r : Pki.Request // createsCa r = true }) (form : AllowForm) :
    SettingsEffect lib plib s (.createCa env request form) (createCa lib plib env request.1 form s).1 := by
  have hsaved : listSaved lib plib s (.createCa env request form) =
      if (createCa lib plib env request.1 form s).2.toBool then some (createCa lib plib env request.1 form s).1.db.lastCa
      else none := rfl
  have hacme : acmeSaved lib plib s (.createCa env request form) = none := rfl
  unfold createCa at hsaved ⊢
  cases hids : parseAllowedProfiles plib s.profiles form with
  | error e => rw [hids] at hsaved; exact settingsEffect_of_eq rfl hacme hsaved
  | ok ids =>
    rcases hr : Pki.handle lib s.db env request.1 with ⟨db, e | u⟩
    · rw [hids, hr] at hsaved
      exact settingsEffect_of_eq rfl hacme hsaved
    · rw [hids, hr] at hsaved
      have heffect := @effect_of_list lib plib s { s with db := db } (.createCa env request form) db.lastCa form ids rfl
        hacme hsaved hids
      exact heffect

/-- **References.** What an operation does to the references: a saved one leads to a row, the others stay. -/
theorem settings_effect (s : Site) (o : Op plib) : SettingsEffect lib plib s o (step lib plib s o) := by
  cases o with
  | seed => exact settingsEffect_of_eq rfl rfl rfl
  | profileNew form => exact settingsEffect_of_eq (withProfiles_settings s _) rfl rfl
  | profileEdit profileId form => exact settingsEffect_of_eq (withProfile_settings s _ _) rfl rfl
  | profileToggle profileId => exact settingsEffect_of_eq (withProfile_settings s _ _) rfl rfl
  | profileDelete profileId => exact settingsEffect_of_eq (withProfile_settings s _ _) rfl rfl
  | importProfiles replace items => exact settingsEffect_of_eq (withProfiles_settings s _) rfl rfl
  | setProfiles caId form => exact setProfiles_effect s caId form
  | setAcme env caId form => exact setAcme_effect s env caId form
  | createCa env request form => exact createCa_effect s env request form
  | importCsr env csr profile =>
    refine settingsEffect_of_eq ?_ rfl rfl
    show (importCsr lib plib env csr profile s).1.settings = _
    unfold importCsr
    split
    · rfl
    · split_ifs
      · rfl
      · rfl
      · split <;> rfl
  | issue required env path => exact settingsEffect_of_eq (issue_frame s path).2 rfl rfl
  | other env request => exact settingsEffect_of_eq rfl rfl rfl

theorem keeps_withProfiles {s : Site} {r : Except PyError ProfileTable} (h : ∀ t, r = .ok t → Keeps s.profiles t) :
    Keeps s.profiles (s.withProfiles r).1.profiles := by
  cases r with
  | error e => exact Keeps.refl _
  | ok t => exact h t rfl

theorem keeps_withProfile {s : Site} {profileId : ℤ} {f : Profile → Except PyError ProfileTable}
    (h : ∀ row ∈ s.profiles, ∀ t, f row = .ok t → Keeps s.profiles t) :
    Keeps s.profiles (withProfile s profileId f).1.profiles := by
  unfold withProfile
  split
  · exact Keeps.refl _
  · rename_i row hrow
    exact keeps_withProfiles (h row (Table.mem_of_get? hrow))

/-- is the operation a deletion -/
def Op.deletes : Op plib → Bool
  | .profileDelete _ => true
  | _ => false

/-- **Profiles.** Only a deletion takes a row away. -/
theorem step_keeps (s : Site) {o : Op plib} (ho : o.deletes = false) : Keeps s.profiles (step lib plib s o).profiles := by
  unfold step handle
  cases o with
  | seed => exact keeps_ensureBuiltins s.profiles
  | profileNew form => exact keeps_withProfiles fun t ht => keeps_create ht
  | profileEdit profileId form => exact keeps_withProfile fun row hrow t ht => keeps_writeUpdate hrow ht
  | profileToggle profileId =>
    refine keeps_withProfile fun row _ t ht => ?_
    rw [← Except.ok.inj ht]
    exact keeps_toggle s.profiles row.id
  | profileDelete profileId => cases ho
  | importProfiles replace items => exact keeps_withProfiles fun t ht => keeps_importProfiles ht
  | setProfiles caId form =>
    show Keeps s.profiles (setProfiles plib caId form s).1.profiles
    rw [(@settings_profiles lib plib s).1]
    exact Keeps.refl _
  | setAcme env caId form =>
    show Keeps s.profiles (setAcme lib plib env caId form s).1.profiles
    rw [(settings_profiles s).2.1]
    exact Keeps.refl _
  | createCa env request form =>
    show Keeps s.profiles (createCa lib plib env request.1 form s).1.profiles
    rw [(settings_profiles s).2.2.1]
    exact Keeps.refl _
  | importCsr env csr profile =>
    show Keeps s.profiles (importCsr lib plib env csr profile s).1.profiles
    rw [(settings_profiles s).2.2.2]
    exact Keeps.refl _
  | issue required env path =>
    rcases (@issue_frame lib plib env required s path).1 with heq | heq
    · rw [heq]
      exact Keeps.refl _
    · rw [heq]
      exact keeps_ensureBuiltins s.profiles
  | other env request => exact Keeps.refl _

/-- what a deletion does: nothing, or one row that `delete` lets go is gone -/
theorem step_delete (s : Site) (profileId : ℤ) :
    (step lib plib s (.profileDelete profileId)).profiles = s.profiles ∨
      ∃ row, s.profiles.get? profileId = some row ∧ row.isBuiltin = false ∧ s.usageCounts profileId = (0, 0) ∧
        (∀ i, i ≠ profileId → (step lib plib s (.profileDelete profileId)).profiles.get? i = s.profiles.get? i) ∧
        (∀ p, byKey s.profiles "custom" = some p → p.isBuiltin = true →
          byKey (step lib plib s (.profileDelete profileId)).profiles "custom" = some p) ∧
        ((∀ p ∈ s.profiles, 0 < p.id) → ∀ p ∈ (step lib plib s (.profileDelete profileId)).profiles, 0 < p.id) := by
  show (withProfile s profileId _).1.profiles = _ ∨ ∃ row, _ ∧ _ ∧ _ ∧
    (∀ i, i ≠ profileId → (withProfile s profileId _).1.profiles.get? i = _) ∧
    (∀ p, _ → _ → byKey (withProfile s profileId _).1.profiles "custom" = _) ∧
    (_ → ∀ p ∈ (withProfile s profileId _).1.profiles, _)
  unfold withProfile
  cases hrow : s.profiles.get? profileId with
  | none => exact Or.inl rfl
  | some row =>
    have hid : row.id = profileId := Table.key_of_get? hrow
    simp only [Site.withProfiles]
    cases hd : delete s.profiles row (s.usageCounts row.id) with
    | error e => exact Or.inl rfl
    | ok t =>
      obtain ⟨hbuiltin, hused, hrows, hcustom, hpos⟩ := delete_ok (Table.mem_of_get? hrow) hd
      rw [hid] at hused hrows
      exact Or.inr ⟨row, rfl, hbuiltin, hused, hrows, hcustom, hpos⟩

/-! ## Sound references in every run -/

/-- what stays when no referenced profile is deleted -/
structure Stays (plib : ProfileLib) (s s' : Site) : Prop where
  rows : ∀ i, ¬ Unreferenced plib s i → (s.profiles.get? i).isSome = true → (s'.profiles.get? i).isSome = true
  custom : ∀ p, byKey s.profiles "custom" = some p → p.isBuiltin = true →
    ∃ p', byKey s'.profiles "custom" = some p' ∧ p'.id = p.id ∧ p'.isBuiltin = true
  positive : (∀ p ∈ s.profiles, 0 < p.id) → ∀ p ∈ s'.profiles, 0 < p.id

theorem Stays.of_keeps {s s' : Site} (h : Keeps s.profiles s'.profiles) : Stays plib s s' :=
  ⟨fun i _ => h.rows i, h.custom, h.positive⟩

theorem step_stays {a : Archive} {o : Op plib} (hr : SparesReferences plib a o) :
    Stays plib a.site (step lib plib a.site o) := by
  cases o with
  | profileDelete profileId =>
    rcases @step_delete lib plib a.site profileId with heq | ⟨row, hrow, hb, hused, hrows, hcustom, hpos⟩
    · exact Stays.of_keeps (heq.symm ▸ Keeps.refl _)
    · refine ⟨fun i hi hsome => ?_, fun p hp hpb => ⟨p, hcustom p hp hpb, rfl, hpb⟩, hpos⟩
      have hne : i ≠ profileId := by
        rintro rfl
        exact hi (hr row hrow hb hused)
      rw [hrows i hne]
      exact hsome
  | _ => exact Stays.of_keeps (step_keeps a.site rfl)

theorem deletes_of_acmeSaved {s : Site} {o : Op plib} {caId : ℤ} (h : acmeSaved lib plib s o = some caId) :
    o.deletes = false := by
  cases o with
  | profileDelete profileId => cases h
  | _ => rfl

theorem deletes_of_listSaved {s : Site} {o : Op plib} {caId : ℤ} (h : listSaved lib plib s o = some caId) :
    o.deletes = false := by
  cases o with
  | profileDelete profileId => cases h
  | _ => rfl

theorem allowedProfileIds_congr {c c' : CaSettings} (h : c'.allowedProfilesJson = c.allowedProfilesJson) :
    allowedProfileIds plib c' = allowedProfileIds plib c := by
  unfold allowedProfileIds
  rw [h]

theorem births_of_some {a : Archive} {i : ℤ} (h : (a.site.profiles.get? i).isSome = true) : a.births i = a.born i :=
  if_pos h

/-- the row of `custom` is found by its id -/
theorem get?_custom {t : ProfileTable} {p : Profile} (h : byKey t "custom" = some p) : (t.get? p.id).isSome = true := by
  rw [Table.get?_key (List.mem_of_find?_eq_some h)]
  rfl

/-- **Step lemma.** Sound references stay sound. -/
theorem sound_step (a : Archive) (o : Op plib) (hr : SparesReferences plib a o) (h : a.Sound plib) :
    (Archive.step lib plib a o).Sound plib := by
  have hstays : Stays plib a.site (step lib plib a.site o) := step_stays hr
  have heffect : SettingsEffect lib plib a.site o (step lib plib a.site o) := settings_effect a.site o
  obtain ⟨custom, hcustom, hbuiltin⟩ := h.custom
  obtain ⟨custom', hcustom', hcustomId, hbuiltin'⟩ := hstays.custom custom hcustom hbuiltin
  have hsetting : ∀ caId i, ((step lib plib a.site o).settings caId).acmeProfileId = some i →
      ((step lib plib a.site o).profiles.get? i).isSome = true := by
    intro caId i hi
    by_cases hsaved : acmeSaved lib plib a.site o = some caId
    · exact (step_keeps a.site (deletes_of_acmeSaved hsaved)).rows i (heffect.acme caId hsaved i hi)
    · rw [heffect.keepsAcme caId hsaved] at hi
      exact hstays.rows i (fun hu => (hu caId).1 hi) (h.setting caId i hi)
  have htarget : ∀ caId i, acmeTarget (step lib plib a.site o) caId = some i →
      ((step lib plib a.site o).profiles.get? i).isSome = true := by
    intro caId i hi
    unfold acmeTarget at hi
    cases hset : ((step lib plib a.site o).settings caId).acmeProfileId with
    | some j =>
      rw [hset] at hi
      rw [← Option.some.inj hi]
      exact hsetting caId j hset
    | none =>
      rw [hset, hcustom'] at hi
      rw [← Option.some.inj hi]
      exact get?_custom hcustom'
  refine ⟨hstays.positive h.positive, ⟨custom', hcustom', hbuiltin'⟩, hsetting, fun caId k hk => ?_,
    fun caId ids hids i hi => ?_⟩
  · change (if acmeSaved lib plib a.site o = some caId then _ else _) = some k at hk
    by_cases hsaved : acmeSaved lib plib a.site o = some caId
    · rw [if_pos hsaved] at hk
      obtain ⟨i, hi, rfl⟩ := Option.map_eq_some_iff.1 hk
      exact ⟨hi, htarget caId i hi, rfl⟩
    · rw [if_neg hsaved] at hk
      obtain ⟨hold, hsome, hborn⟩ := h.chosen caId k hk
      have hsame : acmeTarget (step lib plib a.site o) caId = acmeTarget a.site caId := by
        unfold acmeTarget
        rw [heffect.keepsAcme caId hsaved, hcustom, hcustom']
        cases (a.site.settings caId).acmeProfileId with
        | some i => rfl
        | none => exact congrArg some hcustomId
      refine ⟨hsame.trans hold, htarget caId k.1 (hsame.trans hold), ?_⟩
      exact (births_of_some hsome).trans hborn
  · by_cases hsaved : listSaved lib plib a.site o = some caId
    · have hsome := heffect.list caId hsaved ids hids i hi
      refine ⟨(step_keeps a.site (deletes_of_listSaved hsaved)).rows i hsome, ?_⟩
      show a.births i = (if listSaved lib plib a.site o = some caId then a.births else a.listed caId) i
      rw [if_pos hsaved]
    · rw [show allowedProfileIds plib ((Archive.step lib plib a o).site.settings caId) = _ from
        allowedProfileIds_congr (heffect.keepsList caId hsaved)] at hids
      obtain ⟨hsome, hborn⟩ := h.list caId ids hids i hi
      refine ⟨hstays.rows i (fun hu => (hu caId).2 ids hids hi) hsome, ?_⟩
      show a.births i = (if listSaved lib plib a.site o = some caId then a.births else a.listed caId) i
      rw [if_neg hsaved, births_of_some hsome, hborn]

/-- the profile of an ACME issuance is the one the setting stands for -/
theorem acmeProfile_target {a : Archive} (h : a.Sound plib) {caId : ℤ} {p : Profile}
    (hp : acmeProfile plib a.site caId = .ok p) : acmeTarget a.site caId = some p.id := by
  unfold acmeProfile at hp
  obtain ⟨found, hfound, hp⟩ := bind_eq_ok.1 hp
  have hsome : found = some p := by
    cases hf : found.filter (·.enabled) with
    | none => rw [hf] at hp; cases hp
    | some q =>
      rw [hf] at hp
      rw [← Except.ok.inj hp]
      exact (Option.filter_eq_some_iff.1 hf).1
  rw [hsome] at hfound
  unfold acmeChoice at hfound
  unfold acmeTarget
  cases hset : (a.site.settings caId).acmeProfileId with
  | some i =>
    obtain ⟨q, hq⟩ := Option.isSome_iff_exists.1 (h.setting caId i hset)
    have hpos : i ≠ 0 := by
      have := h.positive q (Table.mem_of_get? hq)
      rw [Table.key_of_get? hq] at this
      omega
    have hbind : ((some i).filter (· ≠ 0)).bind a.site.profiles.get? = some q := by
      rw [Option.filter_some, if_pos (decide_eq_true hpos)]
      exact hq
    rw [hset, hbind] at hfound
    rw [← Option.some.inj (Except.ok.inj hfound), Table.key_of_get? hq]
  | none =>
    obtain ⟨q, hq, -⟩ := h.custom
    have hlookup : lookup plib a.site.profiles (some "custom".toList) = .ok (some q) := by
      have hstrip : strip (some "custom".toList |>.getD []) = "custom".toList := by decide
      have hdigit : ("custom".toList).all plib.isDigit = false := by
        show (plib.isDigit 'c' && _) = false
        rw [plib.isDigit_ascii 'c' (by decide)]
        rfl
      have hid : lookupId plib a.site.profiles "custom".toList = .ok none := by
        rw [lookupId, hdigit]
        rfl
      unfold lookup
      rw [hstrip, if_neg (by decide), hid]
      show Except.ok (none <|> byKey a.site.profiles (String.ofList "custom".toList) <|> _) = _
      rw [String.ofList_toList, hq]
      rfl
    rw [hset] at hfound
    change lookup plib a.site.profiles (some "custom".toList) = .ok (some p) at hfound
    rw [hlookup] at hfound
    rw [hq, Option.some.inj (Except.ok.inj hfound)]
    rfl

theorem sound_start (db : Pki.Db) : (Archive.start db).Sound plib where
  positive := by
    intro p hp
    have hall : ∀ q ∈ (ensureBuiltins Table.empty).rows, 0 < q.id := by decide +kernel
    exact hall p hp
  custom := by
    have hcustom : byKey (ensureBuiltins Table.empty) "custom" = some (builtins[4].row 5) := by decide +kernel
    exact ⟨builtins[4].row 5, hcustom, rfl⟩
  setting := fun _ _ h => nomatch h
  chosen := fun _ _ h => nomatch h
  list := fun _ _ h => nomatch h

/-- sound references, and ACME certificates under the chosen profiles -/
structure Archive.Kept (plib : ProfileLib) (a : Archive) : Prop where
  sound : a.Sound plib
  acme : ∀ e ∈ a.issued, ∀ k, e.chosen = some k → e.issued = some k

/-- **One ACME issuance.** -/
theorem acme_entry {a : Archive} (h : a.Sound plib) {o : Op plib} {e : AcmeIssuance} (he : e ∈ acmeEntry lib plib a o)
    {k : Identity} (hk : e.chosen = some k) : e.issued = some k := by
  unfold acmeEntry at he
  split at he
  · rename_i required env caId csr days form
    simp only [] at he
    split_ifs at he with hnew
    · rw [List.mem_singleton.1 he] at hk ⊢
      obtain ⟨profileId, p?, r, u, cert, ⟨q, -, -, rfl, hacme⟩, -, -, hcolumns⟩ := issue_picks hnew
      obtain ⟨htarget, -, hborn⟩ := h.chosen caId k hk
      have hid : q.id = k.1 := by
        rw [acmeProfile_target h hacme] at htarget
        exact Option.some.inj htarget
      rw [hcolumns]
      show some (q.id, a.born q.id) = some k
      rw [hid, hborn]
    · cases he
  · cases he

theorem kept_step (a : Archive) (o : Op plib) (hr : SparesReferences plib a o) (h : a.Kept plib) :
    (Archive.step lib plib a o).Kept plib := by
  refine ⟨sound_step a o hr h.sound, fun e he k hk => ?_⟩
  rcases List.mem_append.1 he with he | he
  · exact h.acme e he k hk
  · exact acme_entry h.sound he hk

/-- **References.** In a run in which no profile is deleted while a CA refers to it, each ACME certificate is under the
profile that was chosen for its CA, and an entry of a list authorises only the profile it stood for. -/
theorem references_kept (db : Pki.Db) (ops : List (Op plib))
    (h : Meets (Archive.step lib plib) (SparesReferences plib) (Archive.start db) ops) :
    (run (Archive.step lib plib) (Archive.start db) ops).Faithful plib := by
  have hkept : (run (Archive.step lib plib) (Archive.start db) ops).Kept plib :=
    run_invariant_of_meets kept_step ⟨sound_start db, fun _ he => absurd he List.not_mem_nil⟩ h
  exact ⟨hkept.acme, fun caId ids hids p _ hmem => (hkept.sound.list caId ids hids p.id hmem).2⟩

/-! ## Dangling references -/

/-- a named profile of its own -/
def newProfile (name : String) : Op sampleProfileLib :=
  .profileNew (sampleProfileForm
    [("name", name), ("ku_digital_signature", "on"), ("eku_clientAuth", "on"), ("enabled", "on")])

def acmeOrder : Op sampleProfileLib :=
  .issue false (Env.at 0) (.acme 2 sampleCsr 90 ⟨sampleLeafForm, "RSA", 2048, fun _ => false⟩)

/-- a deleted profile, then one that is chosen for ACME and edited -/
def sparedProfile : List (Op sampleProfileLib) :=
  [newProfile "draft", .profileDelete 6, newProfile "short", .setAcme (Env.at 0) 2 ⟨true, some "short".toList⟩,
    .profileEdit 6 (sampleProfileForm [("name", "Shorter"), ("ku_digital_signature", "on"), ("max_validity_days", "30"),
      ("default_validity_days", "7"), ("enabled", "on")]), acmeOrder]

/-- a profile that is chosen for ACME, then deleted -/
def deletedAcmeProfile : List (Op sampleProfileLib) :=
  [newProfile "short", .setAcme (Env.at 0) 2 ⟨true, some "short".toList⟩, .profileDelete 6, acmeOrder]

/-- a profile in a list, then deleted; the next profile gets its id -/
def deletedListEntry : List (Op sampleProfileLib) :=
  [newProfile "short", .setProfiles 2 ⟨true, ["short".toList]⟩, .profileDelete 6, newProfile "wide"]

def sampleArchive (ops : List (Op sampleProfileLib)) : Archive :=
  run (Archive.step Pki.sampleLib sampleProfileLib) (Archive.start Pki.sampleForest) ops

/-- the deleted draft was in no setting and in no list -/
theorem references_kept_sample : (sampleArchive sparedProfile).Faithful sampleProfileLib := by
  have hsettings : ∀ caId, (sampleArchive [newProfile "draft"]).site.settings caId = CaSettings.new := fun caId =>
    congrFun (withProfiles_settings (Site.start Pki.sampleForest) _) caId
  have hdraft : SparesReferences sampleProfileLib (sampleArchive [newProfile "draft"]) (.profileDelete 6) := by
    intro row _ _ _ caId
    rw [hsettings caId]
    exact ⟨(fun h => nomatch h), (fun ids h => nomatch h)⟩
  exact references_kept Pki.sampleForest sparedProfile ⟨trivial, hdraft, trivial, trivial, trivial, trivial, trivial⟩

/-- **A deleted ACME profile.** The next order is issued under `custom`. -/
theorem deleted_acme_profile : ¬ (sampleArchive deletedAcmeProfile).Faithful sampleProfileLib := by
  have hissued : (⟨some (6, 1), some (5, 0)⟩ : AcmeIssuance) ∈ (sampleArchive deletedAcmeProfile).issued := by
    decide +kernel
  intro h
  exact absurd (h.acme _ hissued (6, 1) rfl) (by decide)

/-- **A deleted list entry.** The entry authorises the next profile that gets its id. -/
theorem deleted_list_entry : ¬ (sampleArchive deletedListEntry).Faithful sampleProfileLib := by
  have hlist : allowedProfileIds sampleProfileLib ((sampleArchive deletedListEntry).site.settings 2) = some [6] := by
    decide +kernel
  have hrow : ∃ p ∈ (sampleArchive deletedListEntry).site.profiles, p.id = 6 := by decide +kernel
  have hborn : (sampleArchive deletedListEntry).born 6 ≠ (sampleArchive deletedListEntry).listed 2 6 := by decide +kernel
  intro h
  obtain ⟨p, hp, hid⟩ := hrow
  have heq := h.list 2 [6] hlist p hp (by rw [hid]; exact List.mem_singleton_self 6)
  rw [hid] at heq
  exact hborn heq

end Chancery.Profiles
