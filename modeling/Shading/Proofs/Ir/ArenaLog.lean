import Mathlib.Data.List.Induction
import Shading.Proofs.Ir.Arena

/-!
# Arenas over time

A log notes what was done to an arena: the handles that were given, what
each of them should resolve to, and how often each slot was freed.  It knows
nothing of slots and generations.  As long as no slot is freed as often as
there are generations, the arena does what the log says
(`Arena.safe_of_commands`).
-/

namespace Shading

open List Option

variable {α : Type} {lim? : Option Nat}

/-- What can be done to an arena. -/
inductive ArenaCommand (α : Type) where
  | alloc (value : α)
  | free (handle : Handle)
  | get (handle : Handle)
  /-- Stores another value through a handle. -/
  | set (handle : Handle) (f : α → α)
  | clear

/-! ## The log -/

structure ArenaLog (α : Type) where
  /-- Handles ever given, the last first. -/
  issued : List Handle
  /-- What a handle should resolve to. -/
  value? : Handle → Option α
  /-- How often a slot was freed. -/
  freed : Nat → Nat

namespace ArenaLog

def empty : ArenaLog α := ⟨[], fun _ => none, fun _ => 0⟩

/-- Handles that should resolve. -/
def live (log : ArenaLog α) : List Handle := log.issued.filter fun handle => (log.value? handle).isSome

def give (log : ArenaLog α) (handle : Handle) (value : α) : ArenaLog α :=
  ⟨handle :: log.issued, fun other => if other = handle then some value else log.value? other, log.freed⟩

def set (log : ArenaLog α) (handle : Handle) (f : α → α) : ArenaLog α :=
  { log with value? := fun other => if other = handle then (log.value? other).map f else log.value? other }

/-- Some live handles are freed. -/
def freeAll (log : ArenaLog α) (handles : List Handle) : ArenaLog α where
  issued := log.issued
  value? other := if other ∈ handles then none else log.value? other
  freed index := log.freed index + handles.countP fun handle => handle.index = index

/-- A handle is freed, if it is live. -/
def free (log : ArenaLog α) (handle : Handle) : ArenaLog α :=
  if (log.value? handle).isSome then log.freeAll [handle] else log

def clear (log : ArenaLog α) : ArenaLog α := log.freeAll log.live

section

variable (log : ArenaLog α) (handle other : Handle) (val : α) (f : α → α) (handles : List Handle) (index : Nat)

@[simp] lemma value?_give : (log.give handle val).value? other =
    if other = handle then some val else log.value? other := rfl

@[simp] lemma value?_set : (log.set handle f).value? other =
    if other = handle then (log.value? other).map f else log.value? other := rfl

@[simp] lemma value?_freeAll : (log.freeAll handles).value? other = if other ∈ handles then none
    else log.value? other := rfl

@[simp] lemma freed_freeAll : (log.freeAll handles).freed index =
    log.freed index + handles.countP fun handle => handle.index = index := rfl

end

lemma freeAll_nil (log : ArenaLog α) : log.freeAll [] = log := by
  simp [freeAll]

lemma freeAll_cons (log : ArenaLog α) (handle : Handle) (rest : List Handle) :
    log.freeAll (handle :: rest) = (log.freeAll [handle]).freeAll rest := by
  rw [freeAll, freeAll, ArenaLog.mk.injEq]
  refine ⟨rfl, funext fun other => ?_, funext fun index => ?_⟩
  · by_cases hr : other ∈ rest <;> by_cases hh : other = handle <;> simp [hr, hh]
  · rw [countP_cons, freed_freeAll, countP_cons, countP_nil]
    omega

/-- The order does not matter. -/
lemma freeAll_perm (log : ArenaLog α) {a b : List Handle} (h : a.Perm b) : log.freeAll a = log.freeAll b := by
  unfold freeAll
  congr 1
  · funext other
    simp only [h.mem_iff]
  · funext index
    rw [h.countP_eq]

end ArenaLog

/-- An arena and what was done to it. -/
structure Recorded (α : Type) where
  arena : Arena α
  log : ArenaLog α

namespace Recorded

def empty (limit? : Option Nat) : Recorded α := ⟨.empty limit?, .empty⟩

def step (recorded : Recorded α) : ArenaCommand α → Recorded α
  | .alloc value =>
    match recorded.arena.alloc value with
    | some (handle, later) => ⟨later, recorded.log.give handle value⟩
    | none => recorded
  | .free handle => ⟨recorded.arena.erase handle, recorded.log.free handle⟩
  | .get _ => recorded
  | .set handle f => ⟨recorded.arena.modify handle f, recorded.log.set handle f⟩
  | .clear => ⟨recorded.arena.clear, recorded.log.clear⟩

def run (limit? : Option Nat) (commands : List (ArenaCommand α)) : Recorded α := commands.foldl step (empty limit?)

/-- No slot was freed as often as there are generations. -/
def Young (recorded : Recorded α) : Prop := ∀ index, recorded.log.freed index < UInt32.size

end Recorded

/-! ## What the arena keeps -/

/-- A slot that is vacant is listed as such, and its generation tells how often
it was freed. -/
structure Slot.Agrees {α : Type} (vacant : List Nat) (freed : Nat → Nat) (index : Nat) (slot : Slot α) : Prop where
  listed : slot.value? = none → index ∈ vacant
  generation_eq : slot.generation.toNat = freed index

namespace Arena

variable {ar : Arena α} {log : ArenaLog α} {handle : Handle}

/-- The arena agrees with the log. -/
structure Agrees (arena : Arena α) (log : ArenaLog α) (limit? : Option Nat) : Prop where
  wellFormed : arena.WellFormed
  slots : ∀ (index : Nat) (slot : Slot α), arena.slots[index]? = some slot → slot.Agrees arena.free log.freed index
  unused : ∀ index, arena.slots.size ≤ index → log.freed index = 0
  limit_eq : arena.limit? = limit?
  le_limit : ∀ limit ∈ limit?, arena.live ≤ limit
  get?_eq : ∀ handle, arena.get? handle = log.value? handle
  spent : ∀ handle ∈ log.issued, (log.value? handle).isSome = true ∨ arena.Spent handle
  issued : ∀ handle, (log.value? handle).isSome = true → handle ∈ log.issued
  nodup : log.issued.Nodup

lemma agrees_empty (lim? : Option Nat) : (Arena.empty lim? : Arena α).Agrees .empty lim? where
  wellFormed := wellFormed_empty lim?
  slots _ _ h := by simp [Arena.empty] at h
  unused _ _ := rfl
  limit_eq := rfl
  le_limit limit _ := Nat.zero_le limit
  get?_eq handle := by simp [Arena.empty, get?, ArenaLog.empty]
  spent _ h := by cases h
  issued _ h := by cases h
  nodup := .nil

namespace Agrees

section

variable (h : ar.Agrees log lim?)
include h

/-- A handle that is given was never given before. -/
lemma fresh {val : α} {later : Arena α} (ha : ar.alloc val = some (handle, later)) : handle ∉ log.issued := by
  intro hm
  rcases h.spent handle hm with hlive | hspent
  · rw [← h.get?_eq, get?_alloc_fresh h.wellFormed ha] at hlive
    cases hlive
  · exact not_spent_alloc h.wellFormed ha hspent

/-- There is room up to the limit. -/
lemma alloc_eq_none (hsize : ar.slots.size < maxSlots) (val : α) :
    ar.alloc val = none ↔ lim? = some ar.live := by
  have hfull : ar.isFull = true ↔ lim? = some ar.live := by
    rw [isFull, h.limit_eq]
    cases hl : lim? with
    | none => simp
    | some limit =>
      have := h.le_limit limit hl
      rw [any_some, decide_eq_true_eq, some.injEq]
      omega
  rw [← hfull, Arena.alloc]
  split
  · simp [*]
  · split <;> simp [*]

lemma alloc_slots {val : α} {later : Arena α}
    (ha : ar.alloc val = some (handle, later)) {index : Nat} {slot : Slot α}
    (hs : later.slots[index]? = some slot) : slot.Agrees later.free log.freed index := by
  obtain ⟨old, rest, hfree, hold, -, -, rfl⟩ | ⟨-, rfl, rfl⟩ := alloc_cases h.wellFormed ha
  · rw [Array.getElem?_modify] at hs
    split at hs
    · rename_i heq
      subst heq
      rw [hold] at hs
      cases hs
      exact ⟨nofun, (h.slots _ old hold).generation_eq⟩
    · rename_i hne
      refine ⟨fun hnone => ?_, (h.slots index slot hs).generation_eq⟩
      have hm := (h.slots index slot hs).listed hnone
      rw [hfree] at hm
      exact (mem_cons.mp hm).resolve_left (Ne.symm hne)
  · rw [Array.getElem?_push] at hs
    split at hs
    · rename_i heq
      cases hs
      exact ⟨nofun, (h.unused index (Nat.le_of_eq heq.symm)).symm⟩
    · exact h.slots index slot hs

lemma alloc {val : α} {later : Arena α}
    (ha : ar.alloc val = some (handle, later)) : later.Agrees (log.give handle val) lim? := by
  have hw := h.wellFormed
  have hsize : ar.slots.size ≤ later.slots.size := by
    obtain ⟨_, _, -, -, -, -, rfl⟩ | ⟨-, -, rfl⟩ := alloc_cases hw ha <;> simp
  refine ⟨hw.alloc ha, fun _ _ => h.alloc_slots ha, fun index hi => h.unused index (Nat.le_trans hsize hi),
    (alloc_size ha).2.trans h.limit_eq, fun limit hl => ?_, fun other => ?_, fun other hm => ?_,
    fun other ho => ?_, nodup_cons.mpr ⟨h.fresh ha, h.nodup⟩⟩
  · rw [(allocated_alloc hw ha).2]
    by_contra hfull
    rw [Arena.alloc, if_pos] at ha
    · cases ha
    · rw [isFull, h.limit_eq, hl, any_some, decide_eq_true_eq]
      omega
  · by_cases ho : other = handle
    · subst ho
      rw [get?_alloc_self hw ha, ArenaLog.value?_give, if_pos rfl]
    · rw [get?_alloc_of_ne hw ha ho, ArenaLog.value?_give, if_neg ho, h.get?_eq]
  · rw [ArenaLog.value?_give]
    split
    · exact .inl rfl
    · rename_i hne
      exact (h.spent other ((mem_cons.mp hm).resolve_left hne)).imp_right (spent_alloc hw ha)
  · rw [ArenaLog.value?_give] at ho
    split at ho
    · rename_i heq
      exact heq ▸ mem_cons_self ..
    · exact mem_cons_of_mem _ (h.issued other ho)

lemma set (handle : Handle) (f : α → α) : (ar.modify handle f).Agrees (log.set handle f) lim? := by
  have hsome (other : Handle) : ((log.set handle f).value? other).isSome = (log.value? other).isSome := by
    rw [ArenaLog.value?_set]
    split <;> simp
  have hslots : (ar.modify handle f).slots.size = ar.slots.size ∧ ∀ (index : Nat) (slot : Slot α),
      (ar.modify handle f).slots[index]? = some slot → slot.Agrees (ar.modify handle f).free log.freed index := by
    unfold modify
    split
    · refine ⟨Array.size_modify, fun index slot hs => ?_⟩
      rw [Array.getElem?_modify] at hs
      split at hs
      · obtain ⟨old, hold, rfl⟩ := map_eq_some_iff.mp hs
        exact ⟨fun hnone => (h.slots index old hold).listed (map_eq_none_iff.mp hnone),
          (h.slots index old hold).generation_eq⟩
      · exact h.slots index slot hs
    · exact ⟨rfl, h.slots⟩
  refine ⟨h.wellFormed.modify f, hslots.2, fun index hi => h.unused index (hslots.1 ▸ hi), ?_, ?_, fun other => ?_,
    fun other hm => ?_, fun other ho => h.issued other (hsome other ▸ ho), h.nodup⟩
  · rw [limit?_modify, h.limit_eq]
  · rw [live_modify]
    exact h.le_limit
  · rw [ArenaLog.value?_set]
    split
    · rename_i heq
      subst heq
      rw [← h.get?_eq]
      cases hv : ar.get? other with
      | some val => exact get?_modify_self f hv
      | none =>
        rw [modify, contains, hv, if_neg (by simp)]
        exact hv
    · rename_i hne
      rw [get?_modify_of_ne f hne, h.get?_eq]
  · rw [hsome]
    exact (h.spent other hm).imp_right (spent_modify f)

lemma freeOne {val : α} (hv : ar.get? handle = some val)
    (hyoung : log.freed handle.index + 1 < UInt32.size) :
    (ar.erase handle).Agrees (log.freeAll [handle]) lim? := by
  have hnext : ar.GrowsOlder handle := by
    intro slot hslot
    rw [UInt32.toNat_add, UInt32.toNat_one, Nat.mod_eq_of_lt]
    rw [(h.slots _ slot hslot).generation_eq]
    exact hyoung
  have hlt : handle.index < ar.slots.size := by
    obtain ⟨slot, hslot, -⟩ := get?_eq_some.mp hv
    exact (Array.getElem?_eq_some_iff.mp hslot).1
  have hslots : (ar.erase handle).slots.size = ar.slots.size ∧ ∀ (index : Nat) (slot : Slot α),
      (ar.erase handle).slots[index]? = some slot →
        slot.Agrees (ar.erase handle).free (log.freeAll [handle]).freed index := by
    rw [erase_eq hv]
    refine ⟨Array.size_modify, fun index slot hs => ?_⟩
    rw [Array.getElem?_modify] at hs
    split at hs
    · rename_i heq
      obtain ⟨old, hold, rfl⟩ := map_eq_some_iff.mp hs
      subst heq
      refine ⟨fun _ => mem_cons_self .., ?_⟩
      rw [hnext old hold, (h.slots _ old hold).generation_eq]
      simp
    · rename_i hne
      refine ⟨fun hnone => mem_cons_of_mem _ ((h.slots index slot hs).listed hnone), ?_⟩
      rw [(h.slots index slot hs).generation_eq]
      simp [hne]
  refine ⟨h.wellFormed.erase hv, hslots.2, fun index hi => ?_, (congrArg limit? (erase_eq hv)).trans h.limit_eq,
    fun limit hl => ?_, fun other => ?_, fun other hm => ?_, fun other ho => ?_, h.nodup⟩
  · rw [hslots.1] at hi
    rw [ArenaLog.freed_freeAll, h.unused index hi]
    have hne : handle.index ≠ index := by omega
    simp [hne]
  · rw [live_erase hv]
    exact Nat.le_trans (Nat.sub_le ..) (h.le_limit limit hl)
  · simp only [ArenaLog.value?_freeAll, mem_singleton]
    split
    · rename_i heq
      rw [heq, get?_erase_self hv]
    · rename_i hne
      rw [get?_erase_of_ne hv hne, h.get?_eq]
  · simp only [ArenaLog.value?_freeAll, mem_singleton]
    split
    · rename_i heq
      exact .inr (spent_erase hnext hv (.inl heq))
    · exact (h.spent other hm).imp_right fun hs => spent_erase hnext hv (.inr hs)
  · rw [ArenaLog.value?_freeAll] at ho
    split at ho
    · cases ho
    · exact h.issued other ho

lemma freeAll {handles : List Handle} (hd : handles.Nodup)
    (hv : ∀ handle ∈ handles, ∃ val, ar.get? handle = some val)
    (hyoung : ∀ index, (log.freeAll handles).freed index < UInt32.size) :
    (handles.foldl erase ar).Agrees (log.freeAll handles) lim? := by
  induction handles generalizing ar log with
  | nil => rwa [ArenaLog.freeAll_nil]
  | cons handle rest ih =>
    obtain ⟨val, hval⟩ := hv handle (.head _)
    obtain ⟨hnot, hrest⟩ := nodup_cons.mp hd
    rw [ArenaLog.freeAll_cons] at hyoung ⊢
    refine ih (h.freeOne hval ?_) hrest (fun other hm => ?_) hyoung
    · have := hyoung handle.index
      simp only [ArenaLog.freed_freeAll, countP_singleton, decide_true, if_true] at this
      omega
    · rw [get?_erase_of_ne hval (fun heq => hnot (heq ▸ hm))]
      exact hv other (.tail _ hm)

lemma perm_live : (ar.entries.map Prod.fst).Perm log.live := by
  refine (perm_ext_iff_of_nodup (nodup_handles ar) (h.nodup.filter _)).mpr fun handle => ?_
  rw [mem_filter, List.mem_map]
  constructor
  · rintro ⟨entry, hm, rfl⟩
    have hsome : (log.value? entry.1).isSome = true := by
      rw [← h.get?_eq, mem_entries.mp hm]
      rfl
    exact ⟨h.issued _ hsome, hsome⟩
  · rintro ⟨-, hsome⟩
    rw [← h.get?_eq] at hsome
    obtain ⟨val, hval⟩ := isSome_iff_exists.mp hsome
    exact ⟨(handle, val), mem_entries.mpr hval, rfl⟩

lemma clear (hyoung : ∀ index, log.clear.freed index < UInt32.size) : ar.clear.Agrees log.clear lim? := by
  rw [ArenaLog.clear, ← ArenaLog.freeAll_perm log h.perm_live] at hyoung ⊢
  refine h.freeAll (nodup_handles ar) (fun handle hm => ?_) hyoung
  obtain ⟨entry, hentry, rfl⟩ := mem_map.mp hm
  exact ⟨entry.2, mem_entries.mp hentry⟩

end

lemma stale (hv : ar.get? handle = none) : ar.remove handle = none ∧ ar.erase handle = ar := by
  have hremove : ar.remove handle = none := by rw [remove, hv]
  exact ⟨hremove, by rw [erase, hremove]; rfl⟩

lemma free (h : ar.Agrees log lim?) (hyoung : ∀ index, (log.free handle).freed index < UInt32.size) :
    (ar.erase handle).Agrees (log.free handle) lim? := by
  rw [ArenaLog.free, ← h.get?_eq] at hyoung ⊢
  cases hv : ar.get? handle with
  | none =>
    rw [(stale hv).2, if_neg (by simp)]
    exact h
  | some val =>
    rw [hv, if_pos (by rfl)] at hyoung
    rw [if_pos (by rfl)]
    have := hyoung handle.index
    refine h.freeOne hv ?_
    simpa using this

end Agrees

/-! ## Runs -/

lemma length_entriesFrom (start : Nat) (slots : List (Slot α)) :
    (entriesFrom start slots).length = slots.countP (·.value?.isSome) := by
  induction slots generalizing start with
  | nil => rfl
  | cons slot rest ih =>
    rw [entriesFrom_cons, length_append, ih, countP_cons, entryAt?]
    cases slot.value? <;> simp [Nat.add_comm]

/-- What an arena guarantees, given what was done to it. -/
structure Safe (arena : Arena α) (log : ArenaLog α) (limit? : Option Nat) : Prop where
  resolves : ∀ handle, arena.get? handle = log.value? handle
  once : log.issued.Nodup
  apart : ∀ a b, (arena.get? a).isSome = true → (arena.get? b).isSome = true → a.index = b.index → a = b
  nodup_free : arena.free.Nodup
  mem_free : ∀ index, index ∈ arena.free ↔ ∃ slot : Slot α, arena.slots[index]? = some slot ∧
    slot.value? = none
  live_eq : arena.live = arena.slots.toList.countP (·.value?.isSome)
  count : arena.allocated = arena.freed + arena.live
  le_limit : ∀ limit ∈ limit?, arena.live ≤ limit
  full : arena.slots.size < maxSlots → ∀ value, arena.alloc value = none ↔ limit? = some arena.live
  stale : ∀ handle, arena.get? handle = none → arena.remove handle = none ∧ arena.erase handle = arena

lemma Agrees.safe (h : ar.Agrees log lim?) : ar.Safe log lim? where
  resolves := h.get?_eq
  once := h.nodup
  apart a b ha hb hindex := by
    obtain ⟨_, ha⟩ := isSome_iff_exists.mp ha
    obtain ⟨_, hb⟩ := isSome_iff_exists.mp hb
    obtain ⟨slot, hslot, hga, -⟩ := get?_eq_some.mp ha
    obtain ⟨other, hother, hgb, -⟩ := get?_eq_some.mp hb
    obtain rfl : slot = other := some.inj (hslot.symm.trans (hindex ▸ hother))
    exact congrArg₂ Handle.mk hindex (hga.symm.trans hgb)
  nodup_free := h.wellFormed.nodup
  mem_free index := by
    refine ⟨h.wellFormed.vacant index, ?_⟩
    rintro ⟨slot, hslot, hnone⟩
    exact (h.slots index slot hslot).listed hnone
  live_eq := h.wellFormed.live.trans (length_entriesFrom 0 _)
  count := h.wellFormed.count
  le_limit := h.le_limit
  full := h.alloc_eq_none
  stale _ := Agrees.stale

end Arena

namespace Recorded

variable {recorded : Recorded α}

lemma freed_le_step (recorded : Recorded α) (cmd : ArenaCommand α) (index : Nat) :
    recorded.log.freed index ≤ (recorded.step cmd).log.freed index := by
  cases cmd with
  | alloc val =>
    rw [step]
    split <;> exact Nat.le_refl _
  | free handle =>
    rw [step, ArenaLog.free]
    split
    · exact Nat.le_add_right ..
    · exact Nat.le_refl _
  | get handle | set handle f => exact Nat.le_refl _
  | clear => exact Nat.le_add_right ..

lemma Young.of_step {cmd : ArenaCommand α} (h : (recorded.step cmd).Young) : recorded.Young := fun index =>
  Nat.lt_of_le_of_lt (freed_le_step recorded cmd index) (h index)

/-- One command. -/
lemma agrees_step (h : recorded.arena.Agrees recorded.log lim?) {cmd : ArenaCommand α}
    (hyoung : (recorded.step cmd).Young) :
    (recorded.step cmd).arena.Agrees (recorded.step cmd).log lim? := by
  cases cmd with
  | alloc val =>
    cases ha : recorded.arena.alloc val with
    | none => simpa only [step, ha] using h
    | some stored => simpa only [step, ha] using h.alloc ha
  | free handle => exact h.free hyoung
  | get handle => exact h
  | set handle f => exact h.set handle f
  | clear => exact h.clear hyoung

lemma run_append (lim? : Option Nat) (earlier : List (ArenaCommand α)) (last : ArenaCommand α) :
    run lim? (earlier ++ [last]) = (run lim? earlier).step last := by
  rw [run, foldl_append]
  rfl

lemma agrees_run (commands : List (ArenaCommand α)) (hyoung : (run lim? commands).Young) :
    (run lim? commands).arena.Agrees (run lim? commands).log lim? := by
  induction commands using reverseRecOn with
  | nil => exact Arena.agrees_empty lim?
  | append_singleton earlier last ih =>
    rw [run_append] at hyoung ⊢
    exact agrees_step (ih hyoung.of_step) hyoung

/-- A handle that was given and is no longer live stays so. -/
lemma gone_step (h : recorded.arena.Agrees recorded.log lim?) {handle : Handle}
    (hgone : handle ∈ recorded.log.issued ∧ recorded.log.value? handle = none) (cmd : ArenaCommand α) :
    handle ∈ (recorded.step cmd).log.issued ∧ (recorded.step cmd).log.value? handle = none := by
  obtain ⟨hm, hnone⟩ := hgone
  cases cmd with
  | alloc val =>
    cases ha : recorded.arena.alloc val with
    | none => simpa only [step, ha] using ⟨hm, hnone⟩
    | some stored =>
      have hne : handle ≠ stored.1 := fun heq => h.fresh ha (heq ▸ hm)
      simp only [step, ha, ArenaLog.value?_give, if_neg hne]
      exact ⟨mem_cons_of_mem _ hm, hnone⟩
  | free other =>
    rw [step, ArenaLog.free]
    split
    · exact ⟨hm, by rw [ArenaLog.value?_freeAll, hnone, ite_self]⟩
    · exact ⟨hm, hnone⟩
  | get other => exact ⟨hm, hnone⟩
  | set other f => exact ⟨hm, by simp [step, hnone]⟩
  | clear => exact ⟨hm, by simp [step, ArenaLog.clear, hnone]⟩

lemma gone_run {earlier later : List (ArenaCommand α)} (hyoung : (run lim? (earlier ++ later)).Young)
    {handle : Handle}
    (hgone : handle ∈ (run lim? earlier).log.issued ∧ (run lim? earlier).log.value? handle = none) :
    handle ∈ (run lim? (earlier ++ later)).log.issued ∧
    (run lim? (earlier ++ later)).log.value? handle = none := by
  induction later using reverseRecOn with
  | nil => rwa [append_nil]
  | append_singleton mid last ih =>
    rw [← append_assoc, run_append] at hyoung ⊢
    exact gone_step (agrees_run _ hyoung.of_step) (ih hyoung.of_step) last

end Recorded

/-- Whatever was done to an arena, it is a safe store, and a handle that was
given and resolves no longer never resolves again. -/
theorem Arena.safe_of_commands {α : Type} (limit? : Option Nat) (commands : List (ArenaCommand α))
    (hyoung : (Recorded.run limit? commands).Young) :
    (Recorded.run limit? commands).arena.Safe (Recorded.run limit? commands).log limit? ∧
      ∀ earlier later, commands = earlier ++ later → ∀ handle ∈ (Recorded.run limit? earlier).log.issued,
        (Recorded.run limit? earlier).log.value? handle = none →
          (Recorded.run limit? commands).arena.get? handle = none := by
  have hagrees := Recorded.agrees_run commands hyoung
  refine ⟨hagrees.safe, ?_⟩
  rintro earlier later rfl handle hm hnone
  rw [hagrees.get?_eq]
  exact (Recorded.gone_run hyoung ⟨hm, hnone⟩).2

/-- A slot that is used again, with a limit. -/
def ArenaCommand.reuse : List (ArenaCommand Nat) :=
  [.alloc 1, .alloc 2, .free ⟨0, 0⟩, .alloc 3, .set ⟨0, 0⟩ (· + 1), .set ⟨0, 1⟩ (· + 1), .clear, .alloc 4]

theorem Arena.safe_of_commands_reuse : (Recorded.run (some 1) ArenaCommand.reuse).Young ∧
    (Recorded.run (some 1) ArenaCommand.reuse).arena.Safe (Recorded.run (some 1) ArenaCommand.reuse).log (some 1) ∧
      (Recorded.run (some 1) ArenaCommand.reuse).arena.get? ⟨0, 0⟩ = none ∧
      (Recorded.run (some 1) ArenaCommand.reuse).arena.get? ⟨0, 2⟩ = some 4 := by
  have hyoung : (Recorded.run (some 1) ArenaCommand.reuse).Young := by
    intro index
    have hfreed : (Recorded.run (some 1) ArenaCommand.reuse).log.freed index =
        0 + [(⟨0, 0⟩ : Handle)].countP (fun handle => handle.index = index) +
          [(⟨0, 1⟩ : Handle)].countP fun handle => handle.index = index := rfl
    rw [hfreed]
    refine Nat.lt_of_le_of_lt (Nat.add_le_add (Nat.add_le_add_left List.countP_le_length _)
      List.countP_le_length) ?_
    decide
  obtain ⟨hsafe, hgone⟩ := Arena.safe_of_commands (some 1) ArenaCommand.reuse hyoung
  exact ⟨hyoung, hsafe, hgone [.alloc 1, .alloc 2, .free ⟨0, 0⟩] _ rfl ⟨0, 0⟩ (.head _) rfl, rfl⟩

end Shading
