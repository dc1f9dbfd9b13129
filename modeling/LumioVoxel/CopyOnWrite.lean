import Mathlib.Order.Lattice

/-!
# Copy on write

Values behind counted handles.  A clone shares the allocation of its original, and a write
goes in place only when no other handle shares it; otherwise it goes to a copy.  To its
users such a heap is a list of values, one to a handle, in which a write changes one entry.
-/

namespace CopyOnWrite

variable {α : Type}

/-- Allocations by address, and for each handle the address it holds, until it is dropped. -/
structure Heap (α : Type) where
  cells : List α
  handles : List (Option Nat)

namespace Heap

def empty : Heap α := ⟨[], []⟩

/-- The value at an address, if the handle holds one. -/
def valueAt (heap : Heap α) (address : Option Nat) : Option α :=
  address.bind fun a => heap.cells[a]?

/-- What each handle reads. -/
def values (heap : Heap α) : List (Option α) := heap.handles.map heap.valueAt

def deref (heap : Heap α) (h : Nat) : Option α := heap.values[h]?.join

def alloc (heap : Heap α) (value : α) : Heap α :=
  ⟨heap.cells ++ [value], heap.handles ++ [some heap.cells.length]⟩

def clone (heap : Heap α) (h : Nat) : Heap α :=
  { heap with handles := heap.handles ++ [heap.handles[h]?.join] }

def drop (heap : Heap α) (h : Nat) : Heap α := { heap with handles := heap.handles.set h none }

/-- `Arc::make_mut`, and the change made through it. -/
def makeMut (heap : Heap α) (h : Nat) (change : α → α) : Heap α :=
  match heap.handles[h]?.join with
  | none => heap
  | some a =>
    match heap.cells[a]? with
    | none => heap
    | some value =>
      if heap.handles.count (some a) = 1 then
        { heap with cells := heap.cells.set a (change value) }
      else
        ⟨heap.cells ++ [change value], heap.handles.set h (some heap.cells.length)⟩

/-- Handles hold addresses of the heap. -/
def Sound (heap : Heap α) : Prop := ∀ a, some a ∈ heap.handles → a < heap.cells.length

theorem sound_empty : (empty : Heap α).Sound := fun _ h => absurd h List.not_mem_nil

theorem Sound.alloc {heap : Heap α} (h : heap.Sound) (value : α) : (heap.alloc value).Sound := by
  intro a ha
  rw [Heap.alloc, List.length_append, List.length_singleton]
  rcases List.mem_append.mp ha with ha | ha
  · exact Nat.lt_succ_of_lt (h a ha)
  · obtain rfl := Option.some.inj (List.mem_singleton.mp ha)
    exact Nat.lt_succ_self _

theorem mem_of_join {handles : List (Option Nat)} {h a : Nat}
    (ha : handles[h]?.join = some a) : some a ∈ handles :=
  List.mem_of_getElem? (Option.join_eq_some_iff.mp ha)

theorem Sound.clone {heap : Heap α} (h : heap.Sound) (g : Nat) : (heap.clone g).Sound := by
  intro a ha
  rcases List.mem_append.mp ha with ha | ha
  · exact h a ha
  · exact h a (mem_of_join (List.mem_singleton.mp ha).symm)

theorem Sound.drop {heap : Heap α} (h : heap.Sound) (g : Nat) : (heap.drop g).Sound := by
  intro a ha
  rcases List.mem_or_eq_of_mem_set ha with ha | ha
  · exact h a ha
  · cases ha

theorem Sound.makeMut {heap : Heap α} (h : heap.Sound) (g : Nat) (change : α → α) :
    (heap.makeMut g change).Sound := by
  unfold Heap.makeMut
  split
  · exact h
  · split
    · exact h
    · split
      · intro a ha
        rw [List.length_set]
        exact h a ha
      · intro a ha
        rw [List.length_append, List.length_singleton]
        rcases List.mem_or_eq_of_mem_set ha with ha | ha
        · exact Nat.lt_succ_of_lt (h a ha)
        · obtain rfl := Option.some.inj ha
          exact Nat.lt_succ_self _

/-! ## 1. A list of values -/

/-- A new allocation is seen by no handle there was. -/
theorem valueAt_append {heap : Heap α} (h : heap.Sound) (value : α)
    (handles : List (Option Nat)) {address : Option Nat} (haddress : address ∈ heap.handles) :
    (Heap.mk (heap.cells ++ [value]) handles).valueAt address = heap.valueAt address := by
  cases address with
  | none => rfl
  | some a => exact List.getElem?_append_left (h a haddress)

theorem values_alloc {heap : Heap α} (h : heap.Sound) (value : α) :
    (heap.alloc value).values = heap.values ++ [some value] := by
  have hnew : (heap.alloc value).valueAt (some heap.cells.length) = some value :=
    List.getElem?_concat_length
  rw [values, values, show (heap.alloc value).handles =
    heap.handles ++ [some heap.cells.length] from rfl, List.map_append, List.map_singleton, hnew]
  exact congrArg (· ++ [some value])
    (List.map_congr_left fun address haddress => valueAt_append h value _ haddress)

theorem getElem?_values (heap : Heap α) (h : Nat) :
    heap.values[h]? = heap.handles[h]?.map heap.valueAt :=
  List.getElem?_map

theorem deref_eq (heap : Heap α) (h : Nat) : heap.deref h = heap.valueAt heap.handles[h]?.join := by
  rw [deref, getElem?_values]
  cases heap.handles[h]? with
  | none => rfl
  | some address => rfl

theorem values_clone (heap : Heap α) (h : Nat) :
    (heap.clone h).values = heap.values ++ [heap.deref h] := by
  rw [deref_eq]
  exact List.map_append

theorem values_drop (heap : Heap α) (h : Nat) : (heap.drop h).values = heap.values.set h none :=
  List.map_set

/-- Of the handles only one holds an address that is counted once. -/
theorem eq_of_count_one {handles : List (Option Nat)} {a g h : Nat}
    (hcount : handles.count (some a) = 1) (hg : handles[g]? = some (some a))
    (hh : handles[h]? = some (some a)) : g = h := by
  obtain ⟨hlt, heq⟩ := List.getElem?_eq_some_iff.mp hh
  have hsplit : handles = handles.take h ++ some a :: handles.drop (h + 1) := by
    rw [← heq, ← List.drop_eq_getElem_cons hlt, List.take_append_drop]
  rw [hsplit, List.count_append, List.count_cons_self] at hcount
  have hbefore : some a ∉ handles.take h := List.count_eq_zero.mp (by omega)
  have hafter : some a ∉ handles.drop (h + 1) := List.count_eq_zero.mp (by omega)
  rcases Nat.lt_trichotomy g h with hless | hsame | hmore
  · exact absurd (List.mem_of_getElem? (List.getElem?_take_of_lt hless ▸ hg)) hbefore
  · exact hsame
  · have hfound : (handles.drop (h + 1))[g - (h + 1)]? = some (some a) := by
      rw [List.getElem?_drop, Nat.add_sub_cancel' hmore]
      exact hg
    exact absurd (List.mem_of_getElem? hfound) hafter

/-- **Writes do not alias.** A write changes what one handle reads, whether it goes in place
or to a copy. -/
theorem values_makeMut {heap : Heap α} (hsound : heap.Sound) {h : Nat} {value : α}
    (hvalue : heap.deref h = some value) (change : α → α) :
    (heap.makeMut h change).values = heap.values.set h (some (change value)) := by
  rw [deref_eq] at hvalue
  obtain ⟨a, hjoin, hcell⟩ := Option.bind_eq_some_iff.mp hvalue
  have hhandle : heap.handles[h]? = some (some a) := Option.join_eq_some_iff.mp hjoin
  have halloc : a < heap.cells.length := hsound a (mem_of_join hjoin)
  unfold makeMut
  simp only [hjoin, hcell]
  by_cases hcount : heap.handles.count (some a) = 1
  · rw [if_pos hcount]
    apply List.ext_getElem?
    intro g
    rw [List.getElem?_set, getElem?_values, getElem?_values]
    by_cases hg : h = g
    · obtain rfl := hg
      have hlength : h < heap.values.length := by
        rw [values, List.length_map]
        exact (List.getElem?_eq_some_iff.mp hhandle).1
      rw [if_pos rfl, if_pos hlength, hhandle]
      exact congrArg some (List.getElem?_set_self halloc)
    · rw [if_neg hg]
      cases hother : heap.handles[g]? with
      | none => rfl
      | some address =>
        cases address with
        | none => rfl
        | some b =>
          have hne : a ≠ b := by
            rintro rfl
            exact hg (eq_of_count_one hcount hhandle hother)
          exact congrArg some (List.getElem?_set_ne hne)
  · rw [if_neg hcount]
    have hnew : (Heap.mk (heap.cells ++ [change value])
        (heap.handles.set h (some heap.cells.length))).valueAt (some heap.cells.length) =
          some (change value) := List.getElem?_concat_length
    have hold : heap.handles.map (Heap.mk (heap.cells ++ [change value])
        (heap.handles.set h (some heap.cells.length))).valueAt = heap.values :=
      List.map_congr_left fun address haddress => valueAt_append hsound _ _ haddress
    rw [← hold, ← hnew]
    exact List.map_set

/-- What the handles read when one value was set. -/
theorem deref_of_values_set {heap heap' : Heap α} {h : Nat} {old value : α}
    (hold : heap.deref h = some old) (hset : heap'.values = heap.values.set h (some value))
    (g : Nat) : heap'.deref g = if g = h then some value else heap.deref g := by
  have hlength : h < heap.values.length :=
    (List.getElem?_eq_some_iff.mp (Option.join_eq_some_iff.mp hold)).1
  rw [deref, hset, List.getElem?_set]
  by_cases hg : g = h
  · rw [if_pos hg, if_pos hg.symm, if_pos hlength]
    rfl
  · rw [if_neg hg, if_neg (Ne.symm hg), deref]

end Heap

end CopyOnWrite
