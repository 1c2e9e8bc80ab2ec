import Strongroom.Proofs.Runs

/-! Identifiers tell versions apart. As long as every call has an occasion of its own, no identifier
is drawn twice, and so none is stored twice. -/

namespace Strongroom

namespace Transaction

theorem drawn_le_putVersion (t : Transaction) (name : String) (v : Version) :
    t.drawn ≤ (t.putVersion name v).2.drawn := by
  cases hheld : t.data.find? name with
  | none =>
    rw [putVersion_of_find?_eq_none v hheld]
    exact Nat.le_succ _
  | some held =>
    cases hc : held.append v with
    | ok c => rw [putVersion_of_append_eq_ok hheld hc]
    | error fault => rw [putVersion_of_append_eq_error hheld hc]

def Drew (used : List Nat) (t : Transaction) (id : FreshId) : Prop :=
  id.occasion ∈ used ∨ id.occasion = t.occasion.number ∧ id.index < t.drawn

theorem Drew.mono {used : List Nat} {t t' : Transaction} (hoccasion : t'.occasion = t.occasion)
    (hdrawn : t.drawn ≤ t'.drawn) (id : FreshId) (h : t.Drew used id) : t'.Drew used id := by
  refine h.imp_right fun ⟨hnumber, hindex⟩ => ⟨?_, hindex.trans_le hdrawn⟩
  rw [hnumber, hoccasion]

theorem not_drew_draw {used : List Nat} {t : Transaction} (h : t.occasion.number ∉ used) :
    ¬ t.Drew used t.draw.1 := by
  rintro (hused | ⟨-, hindex⟩)
  · exact h hused
  · exact lt_irrefl _ hindex

end Transaction

namespace StoreData

variable {d d' : StoreData} {key name : String} {v w : Version} {P Q : FreshId → Prop}

def Stores (d : StoreData) (key : String) (v : Version) : Prop :=
  ∃ c, d.credentials.get? key = some c ∧ v ∈ c.versions

theorem Gains.stores_iff (h : d.Gains name v d') :
    d'.Stores key w ↔ d.Stores key w ∨ key = Naming.key name ∧ w = v := by
  by_cases hkey : Naming.key name = key
  · subst hkey
    cases h with
    | first id habsent =>
      have hnone : d.credentials.get? (Naming.key name) = none := habsent
      simp [Stores, hnone, Credential.versions]
    | @next held hheld _ =>
      have hsome : d.credentials.get? (Naming.key name) = some held := hheld
      simp [Stores, hsome]
  · have hother : d'.credentials.get? key = d.credentials.get? key := by
      cases h <;> exact StoreData.get?_holding_of_ne _ _ hkey
    rw [Stores, hother]
    simp [Stores, Ne.symm hkey]

/-- Every stored version has an identifier that was drawn, and no other stored version has it. -/
structure Numbered (d : StoreData) (drawn : FreshId → Prop) : Prop where
  drawn : ∀ {key v}, d.Stores key v → drawn v.id
  apart : ∀ {key other v w}, d.Stores key v → d.Stores other w → v.id = w.id →
    key = other ∧ v = w

theorem numbered_empty : Numbered ∅ P where
  drawn := by
    rintro _ _ ⟨_, h, -⟩
    cases h
  apart := by
    rintro _ _ _ _ ⟨_, h, -⟩
    cases h

theorem Numbered.of_stores (h : d.Numbered P) (hPQ : ∀ id, P id → Q id)
    (hstores : ∀ {key v}, d'.Stores key v → d.Stores key v) : d'.Numbered Q where
  drawn hv := hPQ _ (h.drawn (hstores hv))
  apart hv hw := h.apart (hstores hv) (hstores hw)

theorem Numbered.of_credentials_eq (h : d.Numbered P) (hPQ : ∀ id, P id → Q id)
    (hcredentials : d'.credentials = d.credentials) : d'.Numbered Q :=
  h.of_stores hPQ fun ⟨c, hc, hv⟩ => ⟨c, hcredentials ▸ hc, hv⟩

theorem Numbered.mono (h : d.Numbered P) (hPQ : ∀ id, P id → Q id) : d.Numbered Q :=
  h.of_credentials_eq hPQ rfl

theorem Numbered.gains (h : d.Numbered P) (hPQ : ∀ id, P id → Q id) (hgains : d.Gains name v d')
    (hnew : ¬ P v.id) (hdrawn : Q v.id) : d'.Numbered Q where
  drawn hu := by
    rcases hgains.stores_iff.1 hu with hu | ⟨-, rfl⟩
    · exact hPQ _ (h.drawn hu)
    · exact hdrawn
  apart hu hw hid := by
    rcases hgains.stores_iff.1 hu with hu | ⟨rfl, rfl⟩ <;>
      rcases hgains.stores_iff.1 hw with hw | ⟨rfl, rfl⟩
    · exact h.apart hu hw hid
    · exact absurd (hid ▸ h.drawn hu) hnew
    · exact absurd (hid ▸ h.drawn hw) hnew
    · exact ⟨rfl, rfl⟩

theorem Stores.of_erase (lists : Dictionary AccessList)
    (h : Stores ⟨d.credentials.erase name, lists⟩ key v) : d.Stores key v := by
  obtain ⟨c, hc, hv⟩ := h
  by_cases hkey : name = key
  · subst hkey
    rw [Dictionary.get?_erase_self] at hc
    cases hc
  · rw [Dictionary.get?_erase_of_ne _ hkey] at hc
    exact ⟨c, hc, hv⟩

theorem isInvariant_numbered {used : List Nat} {number : Nat} (hnew : number ∉ used) :
    Work.IsInvariant fun t => t.occasion.number = number ∧ t.data.Numbered (t.Drew used) where
  parameters _ h := h
  draw {t} h := ⟨h.1, h.2.mono (Transaction.Drew.mono rfl (Nat.le_succ _))⟩
  put {t} name value h := by
    obtain ⟨rfl, hnumbered⟩ := h
    have hoccasion := t.draw.2.occasion_putVersion name ⟨t.draw.1, t.now, value⟩
    have hdrawn := t.draw.2.drawn_le_putVersion name ⟨t.draw.1, t.now, value⟩
    have hmono : ∀ id, t.Drew used id → Transaction.Drew used _ id :=
      Transaction.Drew.mono hoccasion (Nat.le_of_succ_le hdrawn)
    refine ⟨congrArg Occasion.number hoccasion, ?_⟩
    rcases t.draw.2.data_putVersion name ⟨t.draw.1, t.now, value⟩ with hsame | hgains
    · rw [hsame]
      exact hnumbered.mono hmono
    · refine hnumbered.gains hmono hgains (Transaction.not_drew_draw hnew) (.inr ⟨?_, hdrawn⟩)
      exact (congrArg Occasion.number hoccasion).symm
  remove name h := ⟨h.1, h.2.of_stores (fun _ hid => hid) fun hv => hv.of_erase _⟩
  replaceOperations _ _ _ h := ⟨h.1, h.2.of_credentials_eq (fun _ hid => hid) rfl⟩
  mergeOperations _ _ _ h := ⟨h.1, h.2.of_credentials_eq (fun _ hid => hid) rfl⟩
  removeActor {t} name actor h := by
    have hoccasion := t.occasion_removeActor name actor
    have hmono : ∀ id, t.Drew used id → Transaction.Drew used _ id :=
      Transaction.Drew.mono hoccasion (t.drawn_removeActor name actor).ge
    refine ⟨(congrArg Occasion.number hoccasion).trans h.1, ?_⟩
    exact h.2.of_credentials_eq hmono (t.credentials_removeActor name actor)

end StoreData

namespace Custodian

/-- The custodians that come of one with nothing in it by calls on occasions that all have different
numbers, with the numbers that were used. -/
inductive ReachableOn (config : Config) (issuer : Issuer) : List Nat → Custodian → Prop
  | start : ReachableOn config issuer [] (empty config issuer)
  | perform {used : List Nat} {c : Custodian} (h : ReachableOn config issuer used c)
    (caller : Caller) {occasion : Occasion} (hnew : occasion.number ∉ used) (call : Call) :
    ReachableOn config issuer (occasion.number :: used) (c.perform caller occasion call).2
  | logged {used : List Nat} {c : Custodian} (h : ReachableOn config issuer used c)
    (log : AuditLog) : ReachableOn config issuer used { c with store := ⟨c.store.data, log⟩ }

namespace ReachableOn

variable {config : Config} {issuer : Issuer} {used : List Nat} {c : Custodian}

theorem reachable (h : ReachableOn config issuer used c) : Reachable config issuer c := by
  induction h with
  | start => exact .start
  | perform _ caller _ call ih => exact ih.perform caller _ call
  | logged _ log ih => exact ih.logged log

theorem numbered (h : ReachableOn config issuer used c) :
    c.store.data.Numbered (·.occasion ∈ used) := by
  induction h with
  | start => exact StoreData.numbered_empty
  | @perform used _ _ _ occasion hnew _ ih =>
    refine perform_keeps (P := fun d => d.Numbered (·.occasion ∈ occasion.number :: used))
      (StoreData.isInvariant_numbered hnew) ?_ ⟨rfl, ?_⟩ ?_
    · rintro t ⟨hoccasion, hnumbered⟩
      refine hnumbered.mono fun id hid => ?_
      rcases hid with hused | ⟨hnumber, -⟩
      · exact List.mem_cons_of_mem _ hused
      · rw [hnumber, hoccasion]
        exact List.mem_cons_self
    · exact ih.mono fun id hid => .inl hid
    · exact ih.mono fun id hid => List.mem_cons_of_mem _ hid
  | logged _ _ ih => exact ih

end ReachableOn

end Custodian

end Strongroom
