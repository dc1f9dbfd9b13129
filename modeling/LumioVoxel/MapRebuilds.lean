import LumioVoxel.FallibleSteps
import LumioVoxel.OrderedMaps

/-!
# Rebuilding a map

A loop over the items of one map that computes a new value for each and files it
in a table under construction.  It goes through exactly when every item's value
can be computed, and the table it leaves relates to the old map key by key.
-/

namespace BTreeMap

open Fallible

variable {κ α β ε ω : Type} [Ord κ] [Std.TransOrd κ] [Std.LawfulEqOrd κ]

/-- The step of such a loop: while the key is new, compute the value and file it. -/
structure RebuildStep (entries : ω → BTreeMap κ β) (f : κ → α → Except ε β)
    (step : ω → κ × α → Except ε ω) : Prop where
  files : ∀ {acc out : ω} {k : κ} {a : α}, (entries acc)[k]? = none → step acc (k, a) = .ok out →
    ∃ b, f k a = .ok b ∧ entries out = (entries acc).insert k b
  proceeds : ∀ {acc : ω} {k : κ} {a : α} {b : β}, (entries acc)[k]? = none → f k a = .ok b →
    ∃ out, step acc (k, a) = .ok out

variable {entries : ω → BTreeMap κ β} {f : κ → α → Except ε β} {step : ω → κ × α → Except ε ω}

private theorem new_after_filing {acc out : ω} {k : κ} {b : β} {rest : List (κ × α)}
    (hout : entries out = (entries acc).insert k b)
    (hnew : ∀ item ∈ rest, (entries acc)[item.1]? = none)
    (hdistinct : ∀ item ∈ rest, k ≠ item.1) :
    ∀ item ∈ rest, (entries out)[item.1]? = none := by
  intro item hitem
  rw [hout, getElem?_insert_ne _ (hdistinct item hitem)]
  exact hnew item hitem

private theorem foldSteps_items [DecidableEq κ] (hstep : RebuildStep entries f step)
    {items : List (κ × α)} (hitems : items.Pairwise fun a b => a.1 ≠ b.1) {acc out : ω}
    (hnew : ∀ item ∈ items, (entries acc)[item.1]? = none)
    (h : foldSteps step acc items = .ok out) :
    (∀ item ∈ items, ∃ b, f item.1 item.2 = .ok b ∧ (entries out)[item.1]? = some b) ∧
      ∀ k, k ∉ items.map (·.1) → (entries out)[k]? = (entries acc)[k]? := by
  induction items generalizing acc with
  | nil =>
    obtain rfl := Except.ok.inj h
    exact ⟨fun item hitem => absurd hitem List.not_mem_nil, fun k _ => rfl⟩
  | cons first rest ih =>
    obtain ⟨k, a⟩ := first
    obtain ⟨hhead, htail⟩ := List.pairwise_cons.mp hitems
    obtain ⟨next, hfirst, hrest⟩ := foldSteps_cons_eq_ok.mp h
    obtain ⟨b, hb, hnext⟩ := hstep.files (hnew _ List.mem_cons_self) hfirst
    have hnew' : ∀ item ∈ rest, (entries next)[item.1]? = none :=
      new_after_filing hnext (fun item hitem => hnew item (List.mem_cons_of_mem _ hitem)) hhead
    obtain ⟨hdone, hother⟩ := ih htail hnew' hrest
    constructor
    · intro item hitem
      rcases List.mem_cons.mp hitem with rfl | hitem
      · refine ⟨b, hb, ?_⟩
        rw [hother k, hnext, getElem?_insert, if_pos rfl]
        intro hmem
        obtain ⟨item', hitem', hkey⟩ := List.mem_map.mp hmem
        exact hhead item' hitem' hkey.symm
      · exact hdone item hitem
    · intro k' hk'
      rw [List.map_cons, List.mem_cons, not_or] at hk'
      rw [hother k' hk'.2, hnext, getElem?_insert_ne _ (Ne.symm hk'.1)]

/-- **What a rebuilt table holds.** Key by key, the value computed from the old
one's, and nothing where the old map had nothing. -/
theorem rel_of_rebuild [DecidableEq κ] (hstep : RebuildStep entries f step) {m : BTreeMap κ α}
    {start out : ω} (hstart : entries start = ∅) (h : foldSteps step start m.toList = .ok out)
    (k : κ) : Option.Rel (fun a b => f k a = .ok b) m[k]? (entries out)[k]? := by
  have hempty : ∀ k : κ, (entries start)[k]? = none := by
    intro k
    rw [hstart, getElem?_empty]
  obtain ⟨hdone, hother⟩ :=
    foldSteps_items hstep (pairwise_toList m) (fun item _ => hempty item.1) h
  cases hk : m[k]? with
  | some a =>
    obtain ⟨b, hb, hout⟩ := hdone (k, a) (mem_toList.mpr hk)
    rw [hout]
    exact .some hb
  | none =>
    rw [hother k, hempty]
    · exact .none
    · intro hmem
      obtain ⟨item, hitem, rfl⟩ := List.mem_map.mp hmem
      rw [mem_toList.mp hitem] at hk
      cases hk

private theorem exists_foldSteps_items (hstep : RebuildStep entries f step)
    {items : List (κ × α)} (hitems : items.Pairwise fun a b => a.1 ≠ b.1) {acc : ω}
    (hnew : ∀ item ∈ items, (entries acc)[item.1]? = none)
    (hvalues : ∀ item ∈ items, ∃ b, f item.1 item.2 = .ok b) :
    ∃ out, foldSteps step acc items = .ok out := by
  induction items generalizing acc with
  | nil => exact ⟨acc, rfl⟩
  | cons first rest ih =>
    obtain ⟨k, a⟩ := first
    obtain ⟨hhead, htail⟩ := List.pairwise_cons.mp hitems
    obtain ⟨b, hb⟩ := hvalues _ List.mem_cons_self
    obtain ⟨next, hfirst⟩ := hstep.proceeds (hnew _ List.mem_cons_self) hb
    obtain ⟨_, -, hnext⟩ := hstep.files (hnew _ List.mem_cons_self) hfirst
    have hnew' : ∀ item ∈ rest, (entries next)[item.1]? = none :=
      new_after_filing hnext (fun item hitem => hnew item (List.mem_cons_of_mem _ hitem)) hhead
    obtain ⟨out, hout⟩ := ih htail hnew' fun item hitem =>
      hvalues item (List.mem_cons_of_mem _ hitem)
    exact ⟨out, foldSteps_cons_eq_ok.mpr ⟨_, hfirst, hout⟩⟩

/-- **When a map can be rebuilt.** -/
theorem exists_rebuild_iff [DecidableEq κ] (hstep : RebuildStep entries f step)
    {m : BTreeMap κ α} {start : ω} (hstart : entries start = ∅) :
    (∃ out, foldSteps step start m.toList = .ok out) ↔
      ∀ k a, m[k]? = some a → ∃ b, f k a = .ok b := by
  constructor
  · rintro ⟨out, hout⟩ k a hk
    have hrel := rel_of_rebuild hstep hstart hout k
    generalize (entries out)[k]? = value at hrel
    rw [hk] at hrel
    cases hrel with
    | some hb => exact ⟨_, hb⟩
  · intro hall
    apply exists_foldSteps_items hstep (pairwise_toList m)
    · intro item _
      rw [hstart, getElem?_empty]
    · exact fun item hitem => hall item.1 item.2 (mem_toList.mp hitem)

end BTreeMap
