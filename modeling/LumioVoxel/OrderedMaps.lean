import Std.Data.ExtTreeMap.Lemmas
import Mathlib.Data.List.Perm.Subperm

/-!
# Ordered maps

The ordered map the development uses throughout: an extensional tree map over
the key type's order.  Two maps with the same lookups are equal, iteration is in
key order, and every operation computes.  The lemmas restate the library's
lookups for keys whose order decides equality, which is the form all later
rewriting takes.
-/

/-- An ordered map with unique keys, iterated in ascending key order. -/
abbrev BTreeMap (κ : Type) (α : Type) [Ord κ] := Std.ExtTreeMap κ α compare

namespace BTreeMap

open Std

variable {κ α β : Type} [Ord κ] [TransOrd κ] [LawfulEqOrd κ]

theorem getElem?_insert [DecidableEq κ] (m : BTreeMap κ α) (k k' : κ) (a : α) :
    (m.insert k a)[k']? = if k = k' then some a else m[k']? := by
  rw [ExtTreeMap.getElem?_insert]
  simp only [Std.compare_eq_iff_eq]

theorem getElem?_erase [DecidableEq κ] (m : BTreeMap κ α) (k k' : κ) :
    (m.erase k)[k']? = if k = k' then none else m[k']? := by
  rw [ExtTreeMap.getElem?_erase]
  simp only [Std.compare_eq_iff_eq]

theorem getElem?_insert_ne (m : BTreeMap κ α) {k k' : κ} (h : k ≠ k') (a : α) :
    (m.insert k a)[k']? = m[k']? := by
  classical
  rw [getElem?_insert, if_neg h]

theorem mem_toList {m : BTreeMap κ α} {k : κ} {a : α} : (k, a) ∈ m.toList ↔ m[k]? = some a :=
  ExtTreeMap.mem_toList_iff_getElem?_eq_some

omit [LawfulEqOrd κ] in
@[simp] theorem toList_empty : (∅ : BTreeMap κ α).toList = [] :=
  ExtTreeMap.toList_eq_nil_iff.mpr rfl

/-- At most one item of a map has a given key. -/
theorem pairwise_names (m : BTreeMap κ α) (k : κ) :
    m.toList.Pairwise fun a b => ¬ (a.1 = k ∧ b.1 = k) :=
  m.distinct_keys_toList.imp fun h hk => h (Std.compare_eq_iff_eq.mpr (hk.1.trans hk.2.symm))

theorem pairwise_toList (m : BTreeMap κ α) : m.toList.Pairwise fun a b => a.1 ≠ b.1 :=
  m.distinct_keys_toList.imp fun h heq => h (Std.compare_eq_iff_eq.mpr heq)

omit [LawfulEqOrd κ] in
@[simp] theorem getElem?_empty (k : κ) : (∅ : BTreeMap κ α)[k]? = none :=
  ExtTreeMap.getElem?_empty

/-- A map that has one more key than another, or one key with another value, is an insertion. -/
theorem eq_insert {m m' : BTreeMap κ α} {k : κ} {a : α} (hself : m[k]? = some a)
    (hother : ∀ k', k' ≠ k → m[k']? = m'[k']?) : m = m'.insert k a := by
  classical
  apply ExtTreeMap.ext_getElem?
  intro k'
  rw [getElem?_insert]
  split
  · rename_i hk
    rw [← hk, hself]
  · rename_i hk
    exact hother k' (Ne.symm hk)

/-- Erasing what was just inserted under a fresh key leaves the map as it was. -/
theorem erase_insert_of_none {m : BTreeMap κ α} {k : κ} (h : m[k]? = none) (a : α) :
    (m.insert k a).erase k = m := by
  classical
  apply ExtTreeMap.ext_getElem?
  intro k'
  rw [getElem?_erase]
  by_cases hk : k = k'
  · rw [if_pos hk, ← hk, h]
  · rw [if_neg hk, getElem?_insert_ne m hk]

/-- Erasing a list of keys, in order. -/
theorem getElem?_foldl_erase [DecidableEq κ] (items : List (κ × β)) (m : BTreeMap κ α) (k : κ) :
    (items.foldl (fun m item => m.erase item.1) m)[k]? =
      if k ∈ items.map (·.1) then none else m[k]? := by
  induction items generalizing m with
  | nil => simp
  | cons item rest ih =>
    rw [List.foldl_cons, ih, getElem?_erase, List.map_cons]
    by_cases hk : k ∈ rest.map (·.1)
    · rw [if_pos hk, if_pos (List.mem_cons_of_mem _ hk)]
    · by_cases hitem : item.1 = k
      · rw [if_neg hk, if_pos hitem, if_pos (hitem ▸ List.mem_cons_self)]
      · rw [if_neg hk, if_neg hitem, if_neg]
        rw [List.mem_cons, not_or]
        exact ⟨fun h => hitem h.symm, hk⟩

/-- Keeping the items whose value passes a test. -/
theorem getElem?_filter_value (m : BTreeMap κ α) (p : α → Bool) (k : κ) :
    (m.filter fun _ a => p a)[k]? = m[k]?.filter p := by
  rw [ExtTreeMap.getElem?_filter']

/-- Inserting items with distinct keys into an empty map, one by one. -/
theorem getElem?_foldl_insert_of_mem {items : List (κ × α)}
    (hitems : items.Pairwise fun a b => a.1 ≠ b.1) {k : κ} {a : α} (h : (k, a) ∈ items) :
    (items.foldl (fun (m : BTreeMap κ α) item => m.insert item.1 item.2) ∅)[k]? = some a := by
  classical
  rw [← ExtTreeMap.ofList_eq_foldl]
  exact ExtTreeMap.getElem?_ofList_of_mem ReflOrd.compare_self
    (hitems.imp fun hne heq => hne (Std.compare_eq_iff_eq.mp heq)) h

theorem getElem?_foldl_insert_of_not_mem {items : List (κ × α)} {k : κ}
    (h : k ∉ items.map (·.1)) :
    (items.foldl (fun (m : BTreeMap κ α) item => m.insert item.1 item.2) ∅)[k]? = none := by
  classical
  rw [← ExtTreeMap.ofList_eq_foldl]
  apply ExtTreeMap.getElem?_ofList_of_contains_eq_false
  rw [Bool.eq_false_iff, Ne, List.contains_iff_mem]
  exact h

/-- A map built from items with distinct keys holds exactly those items. -/
theorem getElem?_foldl_insert_iff {items : List (κ × α)}
    (hitems : items.Pairwise fun a b => a.1 ≠ b.1) {k : κ} {a : α} :
    (items.foldl (fun (m : BTreeMap κ α) item => m.insert item.1 item.2) ∅)[k]? = some a ↔
      (k, a) ∈ items := by
  refine ⟨fun h => ?_, getElem?_foldl_insert_of_mem hitems⟩
  by_cases hk : k ∈ items.map (·.1)
  · obtain ⟨item, hitem, rfl⟩ := List.mem_map.mp hk
    rw [getElem?_foldl_insert_of_mem hitems (a := item.2) hitem] at h
    rw [← Option.some.inj h]
    exact hitem
  · rw [getElem?_foldl_insert_of_not_mem hk] at h
    cases h

/-- A map is what its own items, inserted one by one, build. -/
theorem foldl_insert_toList (m : BTreeMap κ α) :
    m.toList.foldl (fun (m : BTreeMap κ α) item => m.insert item.1 item.2) ∅ = m := by
  apply ExtTreeMap.ext_getElem?
  intro k
  cases hk : m[k]? with
  | some a => exact getElem?_foldl_insert_of_mem (pairwise_toList m) (mem_toList.mpr hk)
  | none =>
    apply getElem?_foldl_insert_of_not_mem
    intro hmem
    obtain ⟨item, hitem, rfl⟩ := List.mem_map.mp hmem
    rw [mem_toList.mp hitem] at hk
    cases hk

/-- A map is determined by its items. -/
theorem toList_injective {m m' : BTreeMap κ α} (h : m.toList = m'.toList) : m = m' := by
  rw [← foldl_insert_toList m, h, foldl_insert_toList]

/-- Two maps whose items show the same show the same under every key. -/
theorem getElem?_map_eq {β : Type} {m m' : BTreeMap κ α} {g : α → β}
    (h : m.toList.map (fun item => (item.1, g item.2)) =
      m'.toList.map fun item => (item.1, g item.2)) (k : κ) :
    m[k]?.map g = m'[k]?.map g := by
  have hmem : ∀ (m : BTreeMap κ α) b, m[k]?.map g = some b ↔
      (k, b) ∈ m.toList.map fun item => (item.1, g item.2) := by
    intro m b
    simp only [Option.map_eq_some_iff, List.mem_map, Prod.mk.injEq]
    constructor
    · rintro ⟨a, ha, rfl⟩
      exact ⟨(k, a), mem_toList.mpr ha, rfl, rfl⟩
    · rintro ⟨⟨_, a⟩, hitem, rfl, rfl⟩
      exact ⟨a, mem_toList.mp hitem, rfl⟩
  refine Option.ext fun b => ?_
  rw [hmem, hmem, h]

/-- And what two maps show under every key, their items show in order. -/
theorem toList_map_eq {β : Type} {m m' : BTreeMap κ α} {g : α → β}
    (h : ∀ k : κ, m[k]?.map g = m'[k]?.map g) :
    m.toList.map (fun item => (item.1, g item.2)) =
      m'.toList.map fun item => (item.1, g item.2) := by
  have hmap : m.map (fun _ a => g a) = m'.map fun _ a => g a := by
    apply ExtTreeMap.ext_getElem?
    intro k
    rw [ExtTreeMap.getElem?_map, ExtTreeMap.getElem?_map, h k]
  have hlist := congrArg ExtTreeMap.toList hmap
  rwa [ExtTreeMap.toList_map, ExtTreeMap.toList_map] at hlist

/-- Items with distinct keys come back from the map they build, in some order. -/
theorem toList_foldl_insert_perm {items : List (κ × α)}
    (hitems : items.Pairwise fun a b => a.1 ≠ b.1) :
    (items.foldl (fun (m : BTreeMap κ α) item => m.insert item.1 item.2) ∅).toList.Perm items := by
  have hnodup : ∀ {items : List (κ × α)}, (items.Pairwise fun a b => a.1 ≠ b.1) → items.Nodup :=
    fun h => h.imp fun hne heq => hne (congrArg Prod.fst heq)
  apply (List.perm_ext_iff_of_nodup (hnodup (pairwise_toList _)) (hnodup hitems)).mpr
  rintro ⟨k, a⟩
  rw [mem_toList, getElem?_foldl_insert_iff hitems]

theorem toList_insert_empty (k : κ) (a : α) : ((∅ : BTreeMap κ α).insert k a).toList = [(k, a)] :=
  List.perm_singleton.mp
    (toList_foldl_insert_perm (List.pairwise_singleton (fun a b : κ × α => a.1 ≠ b.1) (k, a)))

/-- The order of the items does not matter to the map they build. -/
theorem foldl_insert_eq_iff_perm {items : List (κ × α)}
    (hitems : items.Pairwise fun a b => a.1 ≠ b.1) {m : BTreeMap κ α} :
    items.foldl (fun (m : BTreeMap κ α) item => m.insert item.1 item.2) ∅ = m ↔
      items.Perm m.toList := by
  constructor
  · rintro rfl
    exact (toList_foldl_insert_perm hitems).symm
  · intro hperm
    apply ExtTreeMap.ext_getElem?
    intro k
    apply Option.ext
    intro a
    rw [getElem?_foldl_insert_iff hitems, hperm.mem_iff, mem_toList]

/-- A pass over the items of a map does to the part `look` that only the item of
`k` touches what that item does to it. -/
theorem look_foldl_toList {σ γ : Type} (m : BTreeMap κ α) (f : σ → κ × α → σ) (look : σ → γ)
    (k : κ) (g : α → γ) (hother : ∀ s item, item.1 ≠ k → look (f s item) = look s)
    (hown : ∀ s a, look (f s (k, a)) = g a) (s : σ) :
    look (m.toList.foldl f s) = (m[k]?.map g).getD (look s) := by
  have hskip : ∀ (items : List (κ × α)) s, (∀ item ∈ items, item.1 ≠ k) →
      look (items.foldl f s) = look s := by
    intro items
    induction items with
    | nil => exact fun _ _ => rfl
    | cons item rest ih =>
      intro s hitems
      rw [List.foldl_cons, ih _ fun item' h => hitems item' (List.mem_cons_of_mem _ h)]
      exact hother s item (hitems item List.mem_cons_self)
  cases hk : m[k]? with
  | none =>
    refine hskip _ s fun item hitem hname => ?_
    subst hname
    cases hk.symm.trans (mem_toList.mp hitem)
  | some a =>
    obtain ⟨before, after, hsplit⟩ := List.append_of_mem (mem_toList.mpr hk)
    have hnames := pairwise_toList m
    rw [hsplit, List.pairwise_append, List.pairwise_cons] at hnames
    rw [hsplit, List.foldl_append, List.foldl_cons,
      hskip after _ fun item hitem => (hnames.2.1.1 item hitem).symm, hown]
    rfl

/-- A map whose keys are all keys of another is no larger. -/
theorem size_le_of_keys {m m' : BTreeMap κ α} (h : ∀ k : κ, m[k]? = none → m'[k]? = none) :
    m'.size ≤ m.size := by
  rw [← ExtTreeMap.length_keys, ← ExtTreeMap.length_keys]
  refine (List.subperm_of_subset ExtTreeMap.nodup_keys fun k hk => ?_).length_le
  rw [ExtTreeMap.mem_keys] at hk ⊢
  by_contra hnot
  have hnone := h k (ExtTreeMap.getElem?_eq_none hnot)
  rw [ExtTreeMap.mem_iff_isSome_getElem?, hnone] at hk
  cases hk

/-- A set filled item by item, in ascending order. -/
def ascending (items : List κ) : List κ :=
  (items.foldl (fun (m : BTreeMap κ Unit) k => m.insert k ()) ∅).toList.map (·.1)

theorem mem_ascending {items : List κ} {k : κ} : k ∈ ascending items ↔ k ∈ items := by
  classical
  have hfold : ∀ (m : BTreeMap κ Unit),
      (items.foldl (fun m k => m.insert k ()) m)[k]? = some () ↔ m[k]? = some () ∨ k ∈ items := by
    induction items with
    | nil => exact fun m => (or_iff_left List.not_mem_nil).symm
    | cons a rest ih =>
      intro m
      rw [List.foldl_cons, ih, getElem?_insert, List.mem_cons]
      by_cases h : a = k
      · simp [h]
      · simp [h, Ne.symm h]
  have hmem : k ∈ ascending items ↔
      (items.foldl (fun (m : BTreeMap κ Unit) k => m.insert k ()) ∅)[k]? = some () := by
    rw [ascending, List.mem_map]
    constructor
    · rintro ⟨item, hitem, rfl⟩
      exact mem_toList.mp hitem
    · intro h
      exact ⟨(k, ()), mem_toList.mpr h, rfl⟩
  rw [hmem, hfold, getElem?_empty]
  exact or_iff_right (Option.some_ne_none ()).symm

omit [LawfulEqOrd κ] in
theorem ordered_ascending (items : List κ) :
    (ascending items).Pairwise fun a b => compare a b = .lt :=
  List.pairwise_map.mpr (ExtTreeMap.ordered_keys_toList)

omit [TransOrd κ] in
theorem nodup_of_ordered {items : List κ} (h : items.Pairwise fun a b => compare a b = .lt) :
    items.Nodup := by
  refine h.imp fun hlt heq => ?_
  rw [Std.compare_eq_iff_eq.mpr heq] at hlt
  cases hlt

/-- Ascending lists of the same items are equal. -/
theorem eq_of_ordered {l l' : List κ} (h : l.Pairwise fun a b => compare a b = .lt)
    (h' : l'.Pairwise fun a b => compare a b = .lt) (hmem : ∀ k, k ∈ l ↔ k ∈ l') : l = l' := by
  have hperm : l.Perm l' :=
    (List.perm_ext_iff_of_nodup (nodup_of_ordered h) (nodup_of_ordered h')).mpr hmem
  refine hperm.eq_of_pairwise (fun a b _ _ hab hba => ?_) h h'
  have hswap : compare a b = (compare b a).swap := Std.OrientedCmp.eq_swap
  rw [hswap, hba] at hab
  cases hab

end BTreeMap
