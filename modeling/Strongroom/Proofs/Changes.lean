import Strongroom.Proofs.Data

/-! All data that a store can come to hold. Whatever transactions do, be it for a custodian or not,
is a sequence of steps, and each of them leaves the data sound. -/

namespace Strongroom

namespace Transaction

theorem data_putVersion (t : Transaction) (name : String) (v : Version) :
    (t.putVersion name v).2.data = t.data ∨ t.data.Gains name v (t.putVersion name v).2.data := by
  rcases h : t.putVersion name v with ⟨fault | _, t'⟩
  · obtain ⟨held, hheld, happend⟩ := append_eq_error_of_putVersion h
    rw [putVersion_of_append_eq_error hheld happend] at h
    cases h
    exact .inl rfl
  · exact .inr (gains_of_putVersion h)

end Transaction

namespace StoreData

variable {d : StoreData}

theorem Sound.gains {name : String} {v : Version} {d' : StoreData} (hd : d.Sound)
    (h : d.Gains name v d') : d'.Sound := by
  cases h with
  | first id _ => exact hd.first id name v
  | next hheld hkind => exact hd.extended hheld hkind

theorem Sound.putVersion {t : Transaction} (h : t.data.Sound) (name : String) (v : Version) :
    (t.putVersion name v).2.data.Sound := by
  rcases t.data_putVersion name v with hsame | hgains
  · exact hsame ▸ h
  · exact h.gains hgains

theorem Sound.act {t : Transaction} (h : t.data.Sound) (step : Step) :
    (t.act step).data.Sound := by
  cases step with
  | put name value => exact Sound.putVersion (t := t.draw.2) h name _
  | putVersion name v => exact h.putVersion name v
  | remove name => exact h.erase _ _
  | replaceOperations name actor operations => exact h.of_credentials_eq rfl
  | mergeOperations name actor operations => exact h.of_credentials_eq rfl
  | removeActor name actor => exact h.of_credentials_eq (t.credentials_removeActor name actor)
  | draw | note => exact h

/-- The data that come of none by the steps of transactions. -/
inductive Reachable : StoreData → Prop
  | start : Reachable ∅
  | act {t : Transaction} (h : Reachable t.data) (step : Step) : Reachable (t.act step).data

theorem Reachable.sound (h : d.Reachable) : d.Sound := by
  induction h with
  | start => exact sound_empty
  | act _ step ih => exact ih.act step

theorem isInvariant_reachable : Work.IsInvariant fun t => t.data.Reachable where
  parameters _ h := h
  draw h := h
  put name value h := h.act (.put name value)
  remove name h := h.act (.remove name)
  replaceOperations name actor operations h := h.act (.replaceOperations name actor operations)
  mergeOperations name actor operations h := h.act (.mergeOperations name actor operations)
  removeActor name actor h := h.act (.removeActor name actor)

end StoreData

end Strongroom
