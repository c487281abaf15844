/-!
# Generational arenas

An arena stores entries in numbered slots.  A freed slot is used again, the
last freed first; each free raises the generation of the slot, so that a
handle from before resolves to nothing.  A limit on the live entries can be
set.
-/

namespace Shading

structure Handle where
  index : Nat
  generation : UInt32
deriving DecidableEq

def Handle.text (handle : Handle) : String :=
  "#" ++ toString handle.index ++ "v" ++ toString handle.generation.toNat

structure Slot (α : Type) where
  generation : UInt32
  value? : Option α

structure Arena (α : Type) where
  slots : Array (Slot α)
  /-- Vacant slots, last freed first. -/
  free : List Nat
  live : Nat
  limit? : Option Nat
  /-- Entries ever stored. -/
  allocated : Nat
  /-- Entries ever removed. -/
  freed : Nat

namespace Arena

variable {α : Type}

/-- An empty arena for at most `limit?` live entries. -/
def empty (limit? : Option Nat) : Arena α := ⟨#[], [], 0, limit?, 0, 0⟩

/-- Slots are numbered by 32 bits. -/
def maxSlots : Nat := UInt32.size

def isFull (arena : Arena α) : Bool := arena.limit?.any (· ≤ arena.live)

def generation (arena : Arena α) (index : Nat) : UInt32 :=
  (arena.slots[index]?.map (·.generation)).getD 0

def get? (arena : Arena α) (handle : Handle) : Option α :=
  match arena.slots[handle.index]? with
  | some slot => if slot.generation = handle.generation then slot.value? else none
  | none => none

def contains (arena : Arena α) (handle : Handle) : Bool := (arena.get? handle).isSome

/-- Stores an entry; `none` if there is no room. -/
def alloc (arena : Arena α) (value : α) : Option (Handle × Arena α) :=
  if arena.isFull then
    none
  else
    match arena.free with
    | index :: rest =>
      some (⟨index, arena.generation index⟩,
        { arena with
          slots := arena.slots.modify index fun slot => { slot with value? := some value }
          free := rest
          live := arena.live + 1
          allocated := arena.allocated + 1 })
    | [] =>
      if arena.slots.size < maxSlots then
        some (⟨arena.slots.size, 0⟩,
          { arena with
            slots := arena.slots.push ⟨0, some value⟩
            live := arena.live + 1
            allocated := arena.allocated + 1 })
      else
        none

/-- Removes an entry; `none` if the handle is stale. -/
def remove (arena : Arena α) (handle : Handle) : Option (α × Arena α) :=
  match arena.get? handle with
  | some value =>
    some (value,
      { arena with
        slots := arena.slots.modify handle.index fun slot => ⟨slot.generation + 1, none⟩
        free := handle.index :: arena.free
        live := arena.live - 1
        freed := arena.freed + 1 })
  | none => none

/-- Removes an entry, if the handle is not stale. -/
def erase (arena : Arena α) (handle : Handle) : Arena α :=
  ((arena.remove handle).map Prod.snd).getD arena

/-- Changes an entry, if the handle is not stale. -/
def modify (arena : Arena α) (handle : Handle) (f : α → α) : Arena α :=
  if arena.contains handle then
    { arena with
      slots := arena.slots.modify handle.index fun slot => { slot with value? := slot.value?.map f } }
  else
    arena

/-- Live entries in slot order. -/
def entries (arena : Arena α) : List (Handle × α) :=
  arena.slots.toList.zipIdx.filterMap fun (slot, index) =>
    slot.value?.map fun value => (⟨index, slot.generation⟩, value)

/-- Removes all entries. -/
def clear (arena : Arena α) : Arena α :=
  (arena.entries.map Prod.fst).foldl erase arena

end Arena

end Shading
