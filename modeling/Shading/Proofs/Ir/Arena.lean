import Mathlib.Data.List.Perm.Basic
import Shading.Arena

/-!
# What an arena stores

The live entries of an arena, as a list without order, gain the stored entry
with `alloc`, lose it with `erase` and keep the others.  A handle that was freed
is spent: its slot is in a later generation, so it is not given again as long
as generations do not overflow.
-/

namespace Shading

open List Option

variable {handle other : Handle} {β : Type}

namespace Arena

variable {α : Type} {ar : Arena α}

/-! ## Entries -/

/-- The entry of a slot. -/
def entryAt? (index : Nat) (slot : Slot α) : Option (Handle × α) :=
  slot.value?.map fun value => (⟨index, slot.generation⟩, value)

/-- Entries of slots that are numbered from `start` on. -/
def entriesFrom (start : Nat) (slots : List (Slot α)) : List (Handle × α) :=
  (slots.zipIdx start).filterMap fun (slot, index) => entryAt? index slot

lemma entries_eq (ar : Arena α) : ar.entries = entriesFrom 0 ar.slots.toList := rfl

lemma entriesFrom_append (start : Nat) (a b : List (Slot α)) :
    entriesFrom start (a ++ b) = entriesFrom start a ++ entriesFrom (start + a.length) b := by
  unfold entriesFrom
  rw [zipIdx_append, filterMap_append]

lemma entriesFrom_cons (start : Nat) (slot : Slot α) (rest : List (Slot α)) :
    entriesFrom start (slot :: rest) = (entryAt? start slot).toList ++ entriesFrom (start + 1) rest := by
  unfold entriesFrom
  rw [zipIdx_cons, filterMap_cons]
  dsimp only
  cases entryAt? start slot <;> rfl

lemma mem_entries {val : α} : (handle, val) ∈ ar.entries ↔ ar.get? handle = some val := by
  simp only [entries, mem_filterMap, Prod.exists, mem_zipIdx_iff_getElem?, Array.getElem?_toList,
    map_eq_some_iff, Prod.mk.injEq, get?]
  constructor
  · rintro ⟨slot, index, hslot, stored, hsto, rfl, rfl⟩
    simp [hslot, hsto]
  · intro h
    split at h
    · rename_i slot hslot
      split at h
      · rename_i hgen
        exact ⟨slot, handle.index, hslot, val, h, by rw [hgen], rfl⟩
      · cases h
    · cases h

/-- A slot stores at most one entry. -/
lemma nodup_handles (ar : Arena α) : (ar.entries.map Prod.fst).Nodup := by
  have hindex : (ar.slots.toList.zipIdx).Pairwise fun a b => a.2 ≠ b.2 := by
    apply pairwise_map.mp
    change (ar.slots.toList.zipIdx.map Prod.snd).Nodup
    rw [zipIdx_map_snd]
    exact nodup_range'
  rw [List.Nodup, pairwise_map, entries_eq, entriesFrom]
  refine List.Pairwise.filterMap _ (fun a b hne first hfirst second hsecond heq => hne ?_) hindex
  obtain ⟨val, -, rfl⟩ := map_eq_some_iff.mp hfirst
  obtain ⟨value', -, rfl⟩ := map_eq_some_iff.mp hsecond
  exact congrArg Handle.index heq

lemma entries_modify {slots : Array (Slot α)} {index : Nat} {slot : Slot α} (h : slots[index]? = some slot)
    (f : Slot α → Slot α) : ∃ pre after,
      entriesFrom 0 slots.toList = pre ++ (entryAt? index slot).toList ++ after ∧
        entriesFrom 0 (slots.modify index f).toList = pre ++ (entryAt? index (f slot)).toList ++ after := by
  have hlist : slots.toList[index]? = some slot := by rw [Array.getElem?_toList, h]
  obtain ⟨hlt, hget⟩ := List.getElem?_eq_some_iff.mp hlist
  have hsplit : slots.toList = slots.toList.take index ++ slot :: slots.toList.drop (index + 1) := by
    rw [← hget, ← List.drop_eq_getElem_cons hlt, List.take_append_drop]
  have hmodify : (slots.modify index f).toList = slots.toList.take index ++ f slot :: slots.toList.drop
      (index + 1) := by
    rw [Array.toList_modify, modify_eq_take_cons_drop hlt, hget]
  have hlen : (slots.toList.take index).length = index := by
    rw [length_take, Nat.min_eq_left (Nat.le_of_lt hlt)]
  refine ⟨entriesFrom 0 (slots.toList.take index), entriesFrom (index + 1) (slots.toList.drop (index + 1)), ?_, ?_⟩
  · conv_lhs => rw [hsplit]
    rw [entriesFrom_append, entriesFrom_cons, hlen, Nat.zero_add, append_assoc]
  · rw [hmodify, entriesFrom_append, entriesFrom_cons, hlen, Nat.zero_add, append_assoc]

/-! ## Well-formed arenas -/

/-- The bookkeeping of an arena agrees with its slots. -/
structure WellFormed (arena : Arena α) : Prop where
  vacant : ∀ index ∈ arena.free, ∃ slot : Slot α, arena.slots[index]? = some slot ∧ slot.value? = none
  nodup : arena.free.Nodup
  live : arena.live = arena.entries.length
  count : arena.allocated = arena.freed + arena.live
  young : ∀ (index : Nat) (slot : Slot α), arena.slots[index]? = some slot → slot.generation.toNat ≤ arena.freed
  size : arena.slots.size ≤ arena.allocated

/-- The handle was freed: its slot is in a later generation. -/
def Spent (arena : Arena α) (handle : Handle) : Prop :=
  ∃ slot : Slot α, arena.slots[handle.index]? = some slot ∧ handle.generation.toNat < slot.generation.toNat

lemma wellFormed_empty (lim? : Option Nat) : (empty lim? : Arena α).WellFormed where
  vacant _ h := absurd h not_mem_nil
  nodup := nodup_nil
  live := rfl
  count := rfl
  young _ _ h := by simp [empty] at h
  size := Nat.le_refl 0

lemma get?_eq_some {val : α} : ar.get? handle = some val ↔
    ∃ slot, ar.slots[handle.index]? = some slot ∧ slot.generation = handle.generation ∧
    slot.value? = some val := by
  unfold get?
  split
  · rename_i slot hslot
    split <;> simp_all
  · simp_all

/-- A spent handle resolves to nothing. -/
lemma get?_of_spent (h : ar.Spent handle) : ar.get? handle = none := by
  obtain ⟨slot, hslot, hlt⟩ := h
  rw [eq_none_iff_forall_ne_some]
  intro val hval
  obtain ⟨slot', hslot', hgen, -⟩ := get?_eq_some.mp hval
  obtain rfl : slot = slot' := some.inj (hslot.symm.trans hslot')
  rw [hgen] at hlt
  exact Nat.lt_irrefl _ hlt

lemma contains_iff : ar.contains handle = true ↔ ∃ val, ar.get? handle = some val :=
  isSome_iff_exists

lemma live_pos {val : α} (hw : ar.WellFormed) (h : ar.get? handle = some val) : 0 < ar.live := by
  rw [hw.live]
  exact length_pos_of_mem (mem_entries.mpr h)

/-! ## Storing -/

section Alloc

variable {later : Arena α} {val : α}

lemma alloc_size (h : ar.alloc val = some (handle, later)) :
    later.slots.size ≤ ar.slots.size + 1 ∧ later.limit? = ar.limit? := by
  unfold alloc at h
  split at h
  · cases h
  · split at h
    · cases h
      exact ⟨by simp, rfl⟩
    · split at h
      · cases h
        exact ⟨by simp, rfl⟩
      · cases h

/-- There is no room only under a limit or if all slots are used. -/
lemma alloc_none (h : ar.alloc val = none) : ar.limit?.isSome = true ∨ maxSlots ≤ ar.slots.size := by
  unfold alloc at h
  split at h
  · rename_i hfull
    cases hlimit : ar.limit? with
    | none => simp [isFull, hlimit] at hfull
    | some limit => exact .inl rfl
  · split at h
    · cases h
    · split at h
      · cases h
      · exact .inr (by omega)

section

variable (hw : ar.WellFormed) (h : ar.alloc val = some (handle, later))
include hw h

/-- Where an entry is stored: in a vacant slot, or in a new one. -/
lemma alloc_cases :
    (∃ slot rest, ar.free = handle.index :: rest ∧ ar.slots[handle.index]? = some slot ∧ slot.value? = none ∧
      handle.generation = slot.generation ∧
      later = { ar with
        slots := ar.slots.modify handle.index fun slot => { slot with value? := some val }
        free := rest
        live := ar.live + 1
        allocated := ar.allocated + 1 }) ∨
    (ar.free = [] ∧ handle = ⟨ar.slots.size, 0⟩ ∧ later = { ar with
        slots := ar.slots.push ⟨0, some val⟩
        live := ar.live + 1
        allocated := ar.allocated + 1 }) := by
  unfold alloc at h
  split at h
  · cases h
  split at h
  · rename_i index rest hfree
    cases h
    obtain ⟨slot, hslot, hnone⟩ := hw.vacant index (by rw [hfree]; exact mem_cons_self ..)
    exact .inl ⟨slot, rest, hfree, hslot, hnone, by simp [generation, hslot], rfl⟩
  · rename_i hfree
    split at h
    · cases h
      exact .inr ⟨hfree, rfl, rfl⟩
    · cases h

lemma entries_alloc : later.entries.Perm ((handle, val) :: ar.entries) := by
  obtain ⟨slot, rest, -, hslot, hnone, hgen, rfl⟩ | ⟨-, rfl, rfl⟩ := alloc_cases hw h
  · obtain ⟨pre, after, hold, hnew⟩ := entries_modify hslot fun slot => { slot with value? := some val }
    rw [entries_eq, entries_eq, hold, hnew]
    simp only [entryAt?, hnone, map_none, toList_none, map_some, toList_some, ← hgen, append_nil]
    rw [append_assoc, singleton_append]
    exact perm_middle
  · rw [entries_eq, entries_eq, Array.toList_push, entriesFrom_append, entriesFrom_cons]
    simp only [entryAt?, map_some, toList_some, entriesFrom, zipIdx_nil, filterMap_nil,
      append_nil, Nat.zero_add, Array.length_toList]
    exact perm_append_comm

lemma allocated_alloc : later.allocated = ar.allocated + 1 ∧ later.live = ar.live + 1 := by
  obtain ⟨slot, rest, -, -, -, -, rfl⟩ | ⟨-, -, rfl⟩ := alloc_cases hw h <;> exact ⟨rfl, rfl⟩

lemma not_spent_alloc : ¬ar.Spent handle := by
  rintro ⟨slot, hslot, hlt⟩
  obtain ⟨slot', rest, -, hslot', -, hgen, -⟩ | ⟨-, rfl, -⟩ := alloc_cases hw h
  · obtain rfl : slot = slot' := some.inj (hslot.symm.trans hslot')
    rw [hgen] at hlt
    exact Nat.lt_irrefl _ hlt
  · simp at hslot

lemma get?_alloc_self : later.get? handle = some val :=
  mem_entries.mp ((entries_alloc hw h).mem_iff.mpr (.head _))

lemma get?_alloc_fresh : ar.get? handle = none := by
  rw [eq_none_iff_forall_ne_some]
  intro stored hsto
  have hnodup := (((entries_alloc hw h).map Prod.fst).nodup_iff.mp (nodup_handles later))
  rw [map_cons, nodup_cons] at hnodup
  exact hnodup.1 (mem_map.mpr ⟨_, mem_entries.mpr hsto, rfl⟩)

lemma get?_alloc_of_ne (hne : other ≠ handle) : later.get? other = ar.get? other := by
  ext stored
  rw [← mem_entries, ← mem_entries, (entries_alloc hw h).mem_iff, mem_cons]
  constructor
  · rintro (heq | hm)
    · exact absurd (congrArg Prod.fst heq) hne
    · exact hm
  · exact .inr

lemma spent_alloc (hs : ar.Spent other) : later.Spent other := by
  obtain ⟨slot, hslot, hlt⟩ := hs
  obtain ⟨slot', rest, -, -, -, -, rfl⟩ | ⟨-, -, rfl⟩ := alloc_cases hw h
  · rw [Spent, Array.getElem?_modify]
    split
    · rw [hslot]
      exact ⟨_, rfl, hlt⟩
    · exact ⟨slot, hslot, hlt⟩
  · refine ⟨slot, ?_, hlt⟩
    obtain ⟨hindex, -⟩ := Array.getElem?_eq_some_iff.mp hslot
    rw [Array.getElem?_push_lt hindex, ← hslot, Array.getElem?_eq_getElem hindex]

lemma WellFormed.alloc : later.WellFormed := by
  have hentries := (entries_alloc hw h).length_eq
  have hcount := hw.count
  have hlive := hw.live
  obtain ⟨slot, rest, hfree, hslot, hnone, hgen, rfl⟩ | ⟨hfree, rfl, rfl⟩ := alloc_cases hw h
  · have hnodup := hw.nodup
    rw [hfree, nodup_cons] at hnodup
    refine ⟨fun index hm => ?_, hnodup.2, ?_, ?_, fun index other hother => ?_, ?_⟩
    · obtain ⟨other, hother, hvacant⟩ := hw.vacant index (by rw [hfree]; exact mem_cons_of_mem _ hm)
      refine ⟨other, ?_, hvacant⟩
      rw [Array.getElem?_modify, if_neg, hother]
      rintro rfl
      exact hnodup.1 hm
    · rw [hentries, length_cons, ← hlive]
    · dsimp only
      omega
    · rw [Array.getElem?_modify] at hother
      split at hother
      · rename_i heq
        rw [← heq, hslot, map_some, some.injEq] at hother
        rw [← hother]
        exact hw.young _ slot hslot
      · exact hw.young _ _ hother
    · dsimp only
      rw [Array.size_modify]
      exact Nat.le_succ_of_le hw.size
  · refine ⟨fun index hm => ?_, hw.nodup, ?_, ?_, fun index other hother => ?_, ?_⟩
    · rw [hfree] at hm
      cases hm
    · rw [hentries, length_cons, ← hlive]
    · dsimp only
      omega
    · rw [Array.getElem?_push] at hother
      split at hother
      · cases hother
        exact Nat.zero_le _
      · exact hw.young _ _ hother
    · dsimp only
      rw [Array.size_push]
      exact Nat.succ_le_succ hw.size

end

end Alloc

/-! ## Removing -/

section Erase

variable {val : α}

section

variable (h : ar.get? handle = some val)
include h

lemma erase_eq : ar.erase handle = { ar with
      slots := ar.slots.modify handle.index fun slot => ⟨slot.generation + 1, none⟩
      free := handle.index :: ar.free
      live := ar.live - 1
      freed := ar.freed + 1 } := by
  unfold erase remove
  rw [h]
  rfl

lemma entries_erase : ar.entries.Perm ((handle, val) :: (ar.erase handle).entries) := by
  obtain ⟨slot, hslot, hgen, hval⟩ := get?_eq_some.mp h
  obtain ⟨pre, after, hold, hnew⟩ := entries_modify hslot fun slot => ⟨slot.generation + 1, none⟩
  rw [erase_eq h, entries_eq, entries_eq, hold, hnew]
  simp only [entryAt?, hval, map_none, toList_none, map_some, toList_some, hgen, append_nil]
  rw [append_assoc, singleton_append]
  exact perm_middle

lemma get?_erase_self : (ar.erase handle).get? handle = none := by
  rw [eq_none_iff_forall_ne_some]
  intro stored hsto
  have hnodup := (((entries_erase h).map Prod.fst).nodup_iff.mp (nodup_handles ar))
  rw [map_cons, nodup_cons] at hnodup
  exact hnodup.1 (mem_map.mpr ⟨_, mem_entries.mpr hsto, rfl⟩)

lemma get?_erase_of_ne (hne : other ≠ handle) : (ar.erase handle).get? other = ar.get? other := by
  ext stored
  rw [← mem_entries, ← mem_entries, (entries_erase h).mem_iff, mem_cons]
  constructor
  · exact .inr
  · rintro (heq | hm)
    · exact absurd (congrArg Prod.fst heq) hne
    · exact hm

lemma live_erase : (ar.erase handle).live = ar.live - 1 := by
  rw [erase_eq h]

lemma allocated_erase : (ar.erase handle).allocated = ar.allocated := by
  rw [erase_eq h]

end

/-- The generation after the present one is a later one. -/
def GrowsOlder (arena : Arena α) (handle : Handle) : Prop :=
  ∀ slot : Slot α, arena.slots[handle.index]? = some slot → (slot.generation + 1).toNat = slot.generation.toNat + 1

/-- Generations do not overflow while there are fewer entries than handles of
one slot. -/
lemma growsOlder (hw : ar.WellFormed) (hsize : ar.allocated < UInt32.size) (h : ar.get? handle = some val) :
    ar.GrowsOlder handle := by
  intro slot hslot
  have hyoung := hw.young _ slot hslot
  have hcount := hw.count
  have hlive := live_pos hw h
  rw [UInt32.toNat_add, UInt32.toNat_one, Nat.mod_eq_of_lt]
  rw [UInt32.size] at hsize
  omega

lemma spent_erase (hnext : ar.GrowsOlder handle) (h : ar.get? handle = some val)
    (ho : other = handle ∨ ar.Spent other) : (ar.erase handle).Spent other := by
  rw [erase_eq h, Spent, Array.getElem?_modify]
  obtain rfl | ⟨slot, hslot, hlt⟩ := ho
  · obtain ⟨slot, hslot, hgen, -⟩ := get?_eq_some.mp h
    rw [if_pos rfl, hslot]
    refine ⟨_, rfl, ?_⟩
    rw [hnext slot hslot, hgen]
    exact Nat.lt_succ_self _
  · split
    · rename_i heq
      rw [hslot]
      refine ⟨_, rfl, ?_⟩
      rw [hnext slot (heq ▸ hslot)]
      exact Nat.lt_succ_of_lt hlt
    · exact ⟨slot, hslot, hlt⟩

lemma WellFormed.erase (hw : ar.WellFormed) (h : ar.get? handle = some val) : (ar.erase handle).WellFormed := by
  have hentries := (entries_erase h).length_eq
  have hcount := hw.count
  have hlive := hw.live
  have hpos := live_pos hw h
  obtain ⟨slot, hslot, hgen, hval⟩ := get?_eq_some.mp h
  have hnext : (slot.generation + 1).toNat ≤ slot.generation.toNat + 1 := by
    rw [UInt32.toNat_add]
    exact Nat.mod_le _ _
  rw [length_cons] at hentries
  rw [erase_eq h] at hentries ⊢
  refine ⟨fun index hm => ?_, nodup_cons.mpr ⟨fun hm => ?_, hw.nodup⟩, ?_, ?_, fun index other hother => ?_, ?_⟩
  · rw [Array.getElem?_modify]
    rcases mem_cons.mp hm with rfl | hm
    · rw [if_pos rfl, hslot]
      exact ⟨_, rfl, rfl⟩
    · obtain ⟨other, hother, hvacant⟩ := hw.vacant index hm
      split
      · rw [hother]
        exact ⟨_, rfl, rfl⟩
      · exact ⟨other, hother, hvacant⟩
  · obtain ⟨other, hother, hvacant⟩ := hw.vacant _ hm
    obtain rfl : slot = other := some.inj (hslot.symm.trans hother)
    rw [hval] at hvacant
    cases hvacant
  · dsimp only
    omega
  · dsimp only
    omega
  · rw [Array.getElem?_modify] at hother
    dsimp only
    split at hother
    · rename_i heq
      rw [← heq, hslot, map_some, some.injEq] at hother
      rw [← hother]
      exact Nat.le_trans hnext (Nat.succ_le_succ (hw.young _ _ hslot))
    · exact Nat.le_succ_of_le (hw.young _ _ hother)
  · dsimp only
    rw [Array.size_modify]
    exact hw.size

end Erase

/-! ## Changing -/

section Modify

variable {val : α} (f : α → α)

lemma modify_eq (h : ar.get? handle = some val) : ar.modify handle f = { ar with
      slots := ar.slots.modify handle.index fun slot => { slot with value? := slot.value?.map f } } := by
  unfold modify contains
  rw [h, isSome_some, if_pos rfl]

/-- One entry changes; the others stay. -/
lemma entries_modify_of_get? (h : ar.get? handle = some val) : ∃ rest,
    ar.entries.Perm ((handle, val) :: rest) ∧ (ar.modify handle f).entries.Perm ((handle, f val) :: rest) := by
  obtain ⟨slot, hslot, hgen, hval⟩ := get?_eq_some.mp h
  obtain ⟨pre, after, hold, hnew⟩ := entries_modify hslot fun slot => { slot with value? := slot.value?.map f }
  refine ⟨pre ++ after, ?_, ?_⟩
  · rw [entries_eq, hold]
    simp only [entryAt?, hval, map_some, toList_some, hgen]
    rw [append_assoc, singleton_append]
    exact perm_middle
  · rw [modify_eq f h, entries_eq, hnew]
    simp only [entryAt?, hval, map_some, toList_some, hgen]
    rw [append_assoc, singleton_append]
    exact perm_middle

lemma get?_modify_self (h : ar.get? handle = some val) : (ar.modify handle f).get? handle = some (f val) := by
  obtain ⟨rest, -, hnew⟩ := entries_modify_of_get? f h
  exact mem_entries.mp (hnew.mem_iff.mpr (.head _))

lemma get?_modify_of_ne (hne : other ≠ handle) : (ar.modify handle f).get? other = ar.get? other := by
  by_cases hc : ar.contains handle = true
  · obtain ⟨val, h⟩ := contains_iff.mp hc
    obtain ⟨rest, hold, hnew⟩ := entries_modify_of_get? f h
    ext stored
    rw [← mem_entries, ← mem_entries, hold.mem_iff, hnew.mem_iff, mem_cons, mem_cons]
    have hother (first : α) : (other, stored) ≠ (handle, first) := fun heq => hne (congrArg Prod.fst heq)
    simp only [hother, false_or]
  · unfold modify
    rw [if_neg hc]

lemma spent_modify (hs : ar.Spent other) : (ar.modify handle f).Spent other := by
  unfold modify
  split
  · obtain ⟨slot, hslot, hlt⟩ := hs
    rw [Spent, Array.getElem?_modify]
    split
    · rw [hslot]
      exact ⟨_, rfl, hlt⟩
    · exact ⟨slot, hslot, hlt⟩
  · exact hs

@[simp] lemma live_modify : (ar.modify handle f).live = ar.live := by
  unfold modify
  split <;> rfl

@[simp] lemma allocated_modify : (ar.modify handle f).allocated = ar.allocated := by
  unfold modify
  split <;> rfl

@[simp] lemma limit?_modify : (ar.modify handle f).limit? = ar.limit? := by
  unfold modify
  split <;> rfl

lemma WellFormed.modify (hw : ar.WellFormed) : (ar.modify handle f).WellFormed := by
  by_cases hc : ar.contains handle = true
  · obtain ⟨val, h⟩ := contains_iff.mp hc
    obtain ⟨rest, hold, hnew⟩ := entries_modify_of_get? f h
    have hlive : ar.live = (ar.modify handle f).entries.length := by
      rw [hw.live, hold.length_eq, hnew.length_eq]
      rfl
    rw [modify_eq f h] at hlive ⊢
    refine ⟨fun index hm => ?_, hw.nodup, hlive, hw.count, fun index other hother => ?_, ?_⟩
    · obtain ⟨slot, hslot, hvacant⟩ := hw.vacant index hm
      rw [Array.getElem?_modify]
      split
      · rw [hslot]
        exact ⟨_, rfl, by simp [hvacant]⟩
      · exact ⟨slot, hslot, hvacant⟩
    · rw [Array.getElem?_modify] at hother
      split at hother
      · obtain ⟨slot, hslot, rfl⟩ := map_eq_some_iff.mp hother
        exact hw.young _ slot hslot
      · exact hw.young _ _ hother
    · dsimp only
      rw [Array.size_modify]
      exact hw.size
  · unfold Arena.modify
    rwa [if_neg hc]

end Modify

/-! ## Lists made of the entries -/

/-- What `f` gives for the live entries, but for those in `skipped`. -/
def collect {β : Type} (arena : Arena α) (f : α → List β) (skipped : List Handle) : List β :=
  arena.entries.flatMap fun entry => if entry.1 ∈ skipped then [] else f entry.2

section Collect

variable {val : α} {f : α → List β} {skipped : List Handle}

lemma collect_nil (ar : Arena α) (f : α → List β) : ar.collect f [] = ar.entries.flatMap fun entry =>
    f entry.2 := by
  simp [collect]

/-- Skipping a handle that resolves to nothing changes nothing. -/
lemma collect_cons_of_none (h : ar.get? handle = none) :
    ar.collect f (handle :: skipped) = ar.collect f skipped := by
  refine flatMap_congr fun entry hm => ?_
  have hne : entry.1 ≠ handle := by
    rintro rfl
    have hentry : ar.get? entry.1 = some entry.2 := mem_entries.mp hm
    rw [h] at hentry
    cases hentry
  simp only [mem_cons, hne, false_or]

/-- What an entry gives is left out if it is skipped. -/
lemma collect_cons (h : ar.get? handle = some val) (hs : handle ∉ skipped) :
    (ar.collect f skipped).Perm (f val ++ ar.collect f (handle :: skipped)) := by
  have hperm := entries_erase h
  have hrest : (ar.erase handle).collect f (handle :: skipped) = (ar.erase handle).collect f skipped :=
    collect_cons_of_none (get?_erase_self h)
  have hkept := hperm.flatMap_right fun entry => if entry.1 ∈ skipped then [] else f entry.2
  have hskipped := hperm.flatMap_right fun entry => if entry.1 ∈ handle :: skipped then [] else f entry.2
  rw [flatMap_cons, if_neg hs] at hkept
  rw [flatMap_cons, if_pos (.head _), nil_append] at hskipped
  refine hkept.trans (List.Perm.append_left _ (.trans ?_ hskipped.symm))
  exact .of_eq hrest.symm

lemma collect_erase (h : ar.get? handle = some val) :
    (ar.collect f (handle :: skipped)).Perm ((ar.erase handle).collect f skipped) := by
  have hskipped := (entries_erase h).flatMap_right fun entry => if entry.1 ∈ handle :: skipped then []
    else f entry.2
  rw [flatMap_cons, if_pos (.head _), nil_append] at hskipped
  exact hskipped.trans (.of_eq (collect_cons_of_none (get?_erase_self h)))

lemma collect_alloc {later : Arena α} (hw : ar.WellFormed) (h : ar.alloc val = some (handle, later)) :
    (later.collect f (handle :: skipped)).Perm (ar.collect f skipped) := by
  have hskipped := (entries_alloc hw h).flatMap_right fun entry => if entry.1 ∈ handle :: skipped then []
    else f entry.2
  rw [flatMap_cons, if_pos (.head _), nil_append] at hskipped
  exact hskipped.trans (.of_eq (collect_cons_of_none (get?_alloc_fresh hw h)))

lemma collect_modify {g : α → α} (h : ar.get? handle = some val) (hs : handle ∉ skipped) : ∃ rest,
    (ar.collect f skipped).Perm (f val ++ rest) ∧ ((ar.modify handle g).collect f skipped).Perm
    (f (g val) ++ rest) := by
  obtain ⟨rest, hold, hnew⟩ := entries_modify_of_get? g h
  refine ⟨rest.flatMap fun entry => if entry.1 ∈ skipped then [] else f entry.2, ?_, ?_⟩
  · have hperm := hold.flatMap_right fun entry => if entry.1 ∈ skipped then [] else f entry.2
    rwa [flatMap_cons, if_neg hs] at hperm
  · have hperm := hnew.flatMap_right fun entry => if entry.1 ∈ skipped then [] else f entry.2
    rwa [flatMap_cons, if_neg hs] at hperm

lemma collect_modify_of_eq {g : α → α} (h : ar.get? handle = some val) (hg : f (g val) = f val) :
    ((ar.modify handle g).collect f skipped).Perm (ar.collect f skipped) := by
  by_cases hs : handle ∈ skipped
  · obtain ⟨rest, hold, hnew⟩ := entries_modify_of_get? g h
    have hold' := hold.flatMap_right fun entry => if entry.1 ∈ skipped then [] else f entry.2
    have hnew' := hnew.flatMap_right fun entry => if entry.1 ∈ skipped then [] else f entry.2
    rw [flatMap_cons, if_pos hs] at hold' hnew'
    exact hnew'.trans hold'.symm
  · obtain ⟨rest, hold, hnew⟩ := collect_modify (f := f) (g := g) h hs
    rw [hg] at hnew
    exact hnew.trans hold.symm

end Collect

/-! ## Mapping entries -/

/-- Changes every entry. -/
def map {β : Type} (f : α → β) (arena : Arena α) : Arena β :=
  { arena with slots := arena.slots.map fun slot => ⟨slot.generation, slot.value?.map f⟩ }

section Map

variable (f : α → β)

lemma get?_map (handle : Handle) : (ar.map f).get? handle = (ar.get? handle).map f := by
  unfold get? map
  rw [Array.getElem?_map]
  cases ar.slots[handle.index]? with
  | none => rfl
  | some slot =>
    dsimp only [map_some]
    split <;> rfl

lemma entries_map : (ar.map f).entries = ar.entries.map fun entry => (entry.1, f entry.2) := by
  rw [entries_eq, entries_eq, entriesFrom, entriesFrom, map, Array.toList_map, zipIdx_map, filterMap_map,
    map_filterMap]
  refine filterMap_congr fun entry _ => ?_
  obtain ⟨slot, index⟩ := entry
  simp only [Function.comp_apply, Prod.map_apply, entryAt?]
  cases slot.value? <;> rfl

lemma collect_map {γ : Type} {g : β → List γ} {skipped : List Handle} :
    (ar.map f).collect g skipped = ar.collect (fun val => g (f val)) skipped := by
  rw [collect, collect, entries_map, flatMap_map]

lemma spent_map : (ar.map f).Spent handle ↔ ar.Spent handle := by
  unfold Spent map
  rw [Array.getElem?_map]
  cases ar.slots[handle.index]? <;> simp

lemma wellFormed_map : (ar.map f).WellFormed ↔ ar.WellFormed := by
  have hlen : (ar.map f).entries.length = ar.entries.length := by rw [entries_map, length_map]
  have hslot (index : Nat) : (ar.map f).slots[index]? =
      ar.slots[index]?.map fun slot => ⟨slot.generation, slot.value?.map f⟩ := Array.getElem?_map
  have hsize : (ar.map f).slots.size = ar.slots.size := Array.size_map
  constructor
  · rintro ⟨hvacant, hnodup, hlive, hcount, hyoung, hfew⟩
    refine ⟨fun index hm => ?_, hnodup, hlive.trans hlen, hcount, fun index slot hs => ?_,
      Nat.le_trans (Nat.le_of_eq hsize.symm) hfew⟩
    · obtain ⟨slot, hs, hnone⟩ := hvacant index hm
      rw [hslot] at hs
      obtain ⟨old, hold, rfl⟩ := map_eq_some_iff.mp hs
      exact ⟨old, hold, map_eq_none_iff.mp hnone⟩
    · exact hyoung index _ ((hslot index).trans (by rw [hs]; rfl))
  · rintro ⟨hvacant, hnodup, hlive, hcount, hyoung, hfew⟩
    refine ⟨fun index hm => ?_, hnodup, hlive.trans hlen.symm, hcount, fun index slot hs => ?_,
      Nat.le_trans (Nat.le_of_eq hsize) hfew⟩
    · obtain ⟨slot, hs, hnone⟩ := hvacant index hm
      refine ⟨⟨slot.generation, slot.value?.map f⟩, ?_, ?_⟩
      · rw [hslot, hs]
        rfl
      · rw [hnone]
        rfl
    · rw [hslot] at hs
      obtain ⟨old, hold, rfl⟩ := map_eq_some_iff.mp hs
      exact hyoung index old hold

/-- What a change does to an entry does not show. -/
lemma map_modify {g : α → α} (h : ∀ val, ar.get? handle = some val → f (g val) = f val) :
    (ar.modify handle g).map f = ar.map f := by
  by_cases hc : ar.contains handle = true
  · obtain ⟨val, hval⟩ := contains_iff.mp hc
    obtain ⟨slot, hslot, -, hsto⟩ := get?_eq_some.mp hval
    rw [modify_eq g hval, map, map]
    congr 1
    refine Array.ext_getElem? fun i => ?_
    rw [Array.getElem?_map, Array.getElem?_map, Array.getElem?_modify]
    split
    · rename_i heq
      subst heq
      rw [hslot]
      simp [hsto, h val hval]
    · rfl
  · unfold modify
    rw [if_neg hc]

lemma map_erase (handle : Handle) : (ar.erase handle).map f = (ar.map f).erase handle := by
  cases h : ar.get? handle with
  | none =>
    have hnone : (ar.map f).get? handle = none := by rw [get?_map, h, map_none]
    simp only [erase, remove, h, hnone, map_none, getD_none]
  | some val =>
    rw [erase_eq h, erase_eq (get?_map f handle ▸ congrArg (Option.map f) h), map, map]
    congr 1
    refine Array.ext_getElem? fun i => ?_
    simp only [Array.getElem?_map, Array.getElem?_modify]
    split
    · cases ar.slots[i]? <;> rfl
    · rfl

end Map

/-- A change does not show once the entry is removed. -/
lemma erase_modify (f : α → α) : (ar.modify handle f).erase handle = ar.erase handle := by
  cases h : ar.get? handle with
  | none =>
    have hc : ¬ar.contains handle = true := by rw [contains, h]; exact Bool.false_ne_true
    rw [modify, if_neg hc]
  | some val =>
    rw [erase_eq (get?_modify_self f h), erase_eq h, modify_eq f h]
    congr 1
    refine Array.ext_getElem? fun i => ?_
    simp only [Array.getElem?_modify]
    split
    · cases ar.slots[i]? <;> rfl
    · rfl

end Arena

end Shading
