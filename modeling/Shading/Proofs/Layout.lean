import Mathlib.Algebra.Group.Nat.Defs
import Mathlib.Data.List.Nodup
import Shading.Proofs.Layout.Additions
import Shading.Proofs.Parse.Program

/-!
# Members of layouts

Members of a layout that was put together member by member do not overlap, so
at most one is at an offset (`Layout.Built.eq_of_offset_eq`), and the members
are the only symbols of their kind (`SymbolTable.ListsMembers.ofLayout`).
-/

namespace Shading

/-! ## Places -/

lemma ValueType.size_pos {type : ValueType} (hv : type.Valid) (hvoid : type.isVoid = false) :
    0 < type.base.size ∧ 0 < type.size := by
  obtain ⟨base, lanes⟩ := type
  have hlanes : 1 ≤ lanes := hv.1
  have hbase : 0 < base.size := Base.size_pos (by simpa [isVoid] using hvoid)
  exact ⟨hbase, Nat.mul_pos hbase hlanes⟩

namespace Layout

variable {layout : Layout}

lemma Built.holds (h : layout.Built) : ∃ additions, layout.Holds additions := by
  induction h with
  | empty => exact ⟨[], holds_ofAdditions []⟩
  | @add layout later name type access member built valid added ih =>
    obtain ⟨additions, ih⟩ := ih
    have hafter := ih.after ⟨name, type, access⟩
    rw [after, added] at hafter
    exact ⟨_, hafter⟩

/-- Members stand behind one another. -/
lemma Built.places (h : layout.Built) :
    (∀ member ∈ layout.members, member.offset + member.type.size ≤ layout.size) ∧
    layout.members.Pairwise fun a b => a.offset + a.type.size ≤ b.offset := by
  obtain ⟨additions, hholds⟩ := h.holds
  refine ⟨fun member hm => ?_, hholds.apart⟩
  rw [hholds.size]
  exact hholds.placed.stop_le hm

lemma Built.offset_lt (h : layout.Built) {member : Member} (hm : member ∈ layout.members) :
    member.offset < layout.size := by
  obtain ⟨hvalid, hvoid⟩ := h.valid member hm
  have hsize := (ValueType.size_pos hvalid hvoid).2
  have hend := h.places.1 member hm
  omega

/-- At most one member is at an offset. -/
lemma Built.eq_of_offset_eq (h : layout.Built) {a b : Member} (ha : a ∈ layout.members) (hb : b ∈ layout.members)
    (heq : a.offset = b.offset) : a = b := by
  have hnodup : (layout.members.map Member.offset).Nodup := by
    refine List.pairwise_map.mpr (h.places.2.imp_of_mem fun {a b} ha _ hab heq => ?_)
    obtain ⟨hvalid, hvoid⟩ := h.valid a ha
    have hsize := (ValueType.size_pos hvalid hvoid).2
    omega
  exact List.inj_on_of_nodup_map hnodup ha hb heq

/-- The only member at an address. -/
structure HasAt (layout : Layout) (offset : Int32) (member : Member) : Prop where
  mem : member ∈ layout.members
  offset_eq : Int32.ofNat member.offset = offset
  only : ∀ other ∈ layout.members, Int32.ofNat other.offset = offset → other = member

/-- Members of a layout that is not too large are found by their addresses. -/
lemma Built.hasAt (h : layout.Built) (hsize : layout.size < 2 ^ 31) {member : Member}
    (hm : member ∈ layout.members) : layout.HasAt (Int32.ofNat member.offset) member := by
  refine ⟨hm, rfl, fun other ho heq => h.eq_of_offset_eq ho hm ?_⟩
  have htoInt := congrArg Int32.toInt heq
  rw [Int32.toInt_ofNat_of_lt (Nat.lt_trans (h.offset_lt ho) hsize),
    Int32.toInt_ofNat_of_lt (Nat.lt_trans (h.offset_lt hm) hsize)] at htoInt
  omega

end Layout

/-! ## Symbols -/

namespace SymbolTable

/-- The members among the symbols are those given, and so is the result. -/
structure ListsMembers (table : SymbolTable) (members : List Member) : Prop where
  member : ∀ id offset access, (table.get id).kind = .member offset access → ∃ member ∈ members,
    member.offset = offset ∧ member.access = access ∧ member.type = (table.get id).type
  result : ∀ id ∈ table.result?, ∃ member ∈ members, member.isResult = true ∧
    (table.get id).kind = .member member.offset member.access
  bound : ∀ id ∈ table.result?, id.index < table.size

variable {tbl : SymbolTable} {members : List Member}

lemma ListsMembers.declare {sym : Symbol} (h : tbl.ListsMembers members)
    (hs : ∀ off access, sym.kind = .member off access → ∃ member ∈ members,
      member.offset = off ∧ member.access = access ∧ member.type = sym.type) :
    (tbl.declare sym).2.ListsMembers members := by
  have hres : (tbl.declare sym).2.result? = tbl.result? := by
    unfold SymbolTable.declare
    cases tbl.inner <;> rfl
  refine ⟨fun id off access hk => ?_, fun id hid => ?_, fun id hid => ?_⟩
  · by_cases hnew : id = ⟨tbl.size⟩
    · subst hnew
      rw [get_declare_new] at hk ⊢
      exact hs off access hk
    · by_cases hold : id.index < tbl.size
      · rw [get_declare_old tbl sym hold] at hk ⊢
        exact h.member id off access hk
      · -- Nothing stands behind the new symbol.
        have hlt : id.index ≠ tbl.size :=
            fun heq => hnew (by obtain ⟨index⟩ := id; exact congrArg SymbolId.mk heq)
        rw [Extends.get_of_size_le (by rw [size_declare]; omega)] at hk
        cases hk
  · rw [hres] at hid
    obtain ⟨member, hm, hname, hk⟩ := h.result id hid
    exact ⟨member, hm, hname, by rw [get_declare_old tbl sym (h.bound id hid)]; exact hk⟩
  · rw [hres] at hid
    rw [size_declare]
    exact Nat.lt_succ_of_lt (h.bound id hid)

lemma ListsMembers.addMember {member : Member} (h : tbl.ListsMembers members) :
    (tbl.addMember member).ListsMembers (members ++ [member]) := by
  have hmember : member ∈ members ++ [member] := List.mem_append_right _ (.head _)
  have hmore : tbl.ListsMembers (members ++ [member]) := by
    refine ⟨fun id off access hk => ?_, fun id hid => ?_, h.bound⟩
    · obtain ⟨old, hm, hold⟩ := h.member id off access hk
      exact ⟨old, List.mem_append_left _ hm, hold⟩
    · obtain ⟨old, hm, hold⟩ := h.result id hid
      exact ⟨old, List.mem_append_left _ hm, hold⟩
  have hdecl : (tbl.declare ⟨member.name, member.type, .member member.offset member.access, false⟩).2.ListsMembers
      (members ++ [member]) := hmore.declare (by
    rintro off access ⟨⟩
    exact ⟨member, hmember, rfl, rfl, rfl⟩)
  unfold SymbolTable.addMember
  dsimp only
  split
  · rename_i hres
    refine ⟨hdecl.member, fun id hid => ?_, fun id hid => ?_⟩
    · obtain rfl : (tbl.declare _).1 = id := Option.some.inj hid
      refine ⟨member, hmember, hres, ?_⟩
      change ((tbl.declare _).2.get (tbl.declare _).1).kind = _
      rw [declare_fst, get_declare_new]
    · obtain rfl : (tbl.declare _).1 = id := Option.some.inj hid
      change (tbl.declare _).1.index < (tbl.declare _).2.size
      rw [declare_fst, size_declare]
      exact Nat.lt_succ_self _
  · exact hdecl

lemma ListsMembers.ofLayout (layout : Layout) : (SymbolTable.ofLayout layout).ListsMembers layout.members := by
  have hintrinsics (intrinsics : List Intrinsic) (tbl : SymbolTable) (h : tbl.ListsMembers []) :
      (intrinsics.foldl SymbolTable.addIntrinsic tbl).ListsMembers [] := by
    induction intrinsics generalizing tbl with
    | nil => exact h
    | cons f rest ih => exact ih _ (h.declare (by rintro _ _ ⟨⟩))
  have hmembers (more known : List Member) (tbl : SymbolTable) (h : tbl.ListsMembers known) :
      (more.foldl SymbolTable.addMember tbl).ListsMembers (known ++ more) := by
    induction more generalizing known tbl with
    | nil => rwa [List.append_nil]
    | cons member rest ih =>
      have hrest := ih (known ++ [member]) _ h.addMember
      rwa [List.append_assoc] at hrest
  have hempty : SymbolTable.empty.ListsMembers [] :=
    ⟨fun id off access hk => (by cases hk), fun id hid => (by cases hid), fun id hid => (by cases hid)⟩
  exact hmembers layout.members [] _ (hintrinsics _ _ hempty)

/-- Parsing adds no members. -/
lemma ListsMembers.extends {later : SymbolTable} (h : tbl.ListsMembers members) (hl : tbl.Extends later) :
    later.ListsMembers members := by
  refine ⟨fun id off access hk => ?_, fun id hid => ?_, fun id hid => ?_⟩
  · by_cases hbound : id.index < tbl.size
    · rw [hl.get_eq id hbound] at hk ⊢
      exact h.member id off access hk
    · exact absurd hk (hl.not_member id (Nat.le_of_not_lt hbound) off access)
  · rw [hl.result_eq] at hid
    rw [hl.get_eq id (h.bound id hid)]
    exact h.result id hid
  · rw [hl.result_eq] at hid
    exact Nat.lt_of_lt_of_le (h.bound id hid) hl.size_le

end SymbolTable

end Shading
