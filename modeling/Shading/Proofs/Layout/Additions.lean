import Mathlib.Data.List.Induction
import Mathlib.Order.Bounds.Basic
import Shading.Layout

/-!
# Layouts that are put together

Whatever members are asked for in whatever order, a layout holds those that
were accepted, each at the first place for its type behind the one before
(`Layout.holds_of_additions`).  A request is refused for its name or because it
is `void`, and then nothing changes.
-/

namespace Shading

open List

/-- A request for a member. -/
structure Addition where
  name : String
  type : ValueType
  access : Access
deriving DecidableEq

namespace Addition

/-- Whether a request is granted when some names are taken. -/
def isAccepted (taken : List String) (addition : Addition) : Bool :=
  isMemberName addition.name && !taken.contains addition.name && !addition.type.isVoid

/-- The requests that are granted, in order. -/
def accepted (taken : List String) : List Addition → List Addition
  | [] => []
  | addition :: rest =>
    if addition.isAccepted taken then addition :: accepted (taken ++ [addition.name]) rest else accepted taken rest

lemma accepted_append (taken : List String) (earlier : List Addition) (last : Addition) :
    accepted taken (earlier ++ [last]) = accepted taken earlier ++
      if last.isAccepted (taken ++ (accepted taken earlier).map name) then [last] else [] := by
  induction earlier generalizing taken with
  | nil => simp [accepted]
  | cons first rest ih =>
    by_cases h : first.isAccepted taken = true
    · simp [accepted, h, ih]
    · simp [accepted, h, ih]

end Addition

/-- What was asked for when a member was added. -/
def Member.addition (member : Member) : Addition := ⟨member.name, member.type, member.access⟩

/-- Just behind a member. -/
def Member.stop (member : Member) : Nat := member.offset + member.type.size

/-- Members from `start` on, each at the first multiple of its element size
that is not before the end of the one before. -/
def Member.PlacedFrom (start : Nat) : List Member → Prop
  | [] => True
  | member :: rest =>
    IsLeast {offset | member.type.base.size ∣ offset ∧ start ≤ offset} member.offset ∧
      PlacedFrom member.stop rest

/-! ## Places -/

lemma isLeast_roundUp (n : Nat) {step : Nat} (h : 0 < step) : IsLeast {m | step ∣ m ∧ n ≤ m}
    (roundUp n step) := by
  have hdiv := Nat.div_add_mod (n + step - 1) step
  have hmod := Nat.mod_lt (n + step - 1) h
  rw [Nat.mul_comm] at hdiv
  refine ⟨⟨Nat.dvd_mul_left .., by unfold roundUp; omega⟩, ?_⟩
  rintro _ ⟨⟨k, rfl⟩, hk⟩
  have hle : (n + step - 1) / step ≤ k := by
    rw [Nat.div_le_iff_le_mul h]
    rw [Nat.mul_comm] at hk
    omega
  rw [roundUp, Nat.mul_comm step]
  exact Nat.mul_le_mul_right step hle

lemma Base.size_pos {base : Base} (h : base ≠ .void) : 0 < base.size := by
  cases base with
  | void => exact absurd rfl h
  | _ => decide

namespace Member.PlacedFrom

variable {start : Nat} {members : List Member} {member : Member}

section

variable (h : PlacedFrom start members)
include h

lemma le_offset (hm : member ∈ members) : start ≤ member.offset := by
  induction members generalizing start with
  | nil => cases hm
  | cons first rest ih =>
    rcases mem_cons.mp hm with rfl | hm
    · exact h.1.1.2
    · exact Nat.le_trans h.1.1.2 (Nat.le_trans (Nat.le_add_right ..) (ih h.2 hm))

lemma pairwise : members.Pairwise fun a b => a.stop ≤ b.offset := by
  induction members generalizing start with
  | nil => exact .nil
  | cons first rest ih => exact .cons (fun _ hm => h.2.le_offset hm) (ih h.2)

/-- No member goes beyond the last one. -/
lemma stop_le (hm : member ∈ members) : member.stop ≤ (members.getLast?.map stop).getD start := by
  induction members generalizing start member with
  | nil => cases hm
  | cons first rest ih =>
    cases rest with
    | nil => exact Nat.le_of_eq (congrArg stop (mem_singleton.mp hm))
    | cons second rest =>
      have hlast : ((first :: second :: rest).getLast?.map stop).getD start =
          ((second :: rest).getLast?.map stop).getD first.stop := rfl
      rw [hlast]
      rcases mem_cons.mp hm with rfl | hm
      · exact Nat.le_trans h.2.1.1.2 (Nat.le_trans (Nat.le_add_right ..) (ih h.2 (.head _)))
      · exact ih h.2 hm

lemma append (hm : IsLeast {off | member.type.base.size ∣ off ∧ (members.getLast?.map stop).getD start ≤ off}
      member.offset) :
    PlacedFrom start (members ++ [member]) := by
  induction members generalizing start with
  | nil => exact ⟨hm, trivial⟩
  | cons first rest ih =>
    refine ⟨h.1, ih h.2 ?_⟩
    cases rest with
    | nil | cons second rest => exact hm

end

end Member.PlacedFrom

/-! ## Requests -/

namespace Layout

/-- The layout behind a request, the same if it is refused. -/
def after (layout : Layout) (addition : Addition) : Layout :=
  match layout.add addition.name addition.type addition.access with
  | .ok (_, later) => later
  | .error _ => layout

/-- Why a request can be refused. -/
def Refuses (layout : Layout) (addition : Addition) : Prop :=
  isMemberName addition.name = false ∨ addition.name ∈ layout.members.map Member.name ∨ addition.type.base = .void

/-- A layout holds what was granted of some requests. -/
structure Holds (additions : List Addition) (layout : Layout) : Prop where
  members : layout.members.map Member.addition = Addition.accepted [] additions
  names : (layout.members.map Member.name).Nodup
  notVoid : ∀ member ∈ layout.members, member.type.base ≠ .void
  placed : Member.PlacedFrom 0 layout.members
  apart : layout.members.Pairwise fun a b => a.stop ≤ b.offset
  size : layout.size = (layout.members.getLast?.map Member.stop).getD 0

variable {layout : Layout}

lemma isSome_get? (layout : Layout) (name : String) :
    (layout.get? name).isSome = true ↔ name ∈ layout.members.map Member.name := by
  simp [get?, find?_isSome]

/-- A request is refused for one of the reasons, or adds one member. -/
lemma add_cases (layout : Layout) (addition : Addition) :
    (layout.Refuses addition ∧ ∃ err, layout.add addition.name addition.type addition.access = .error err) ∨
    (¬layout.Refuses addition ∧ ∃ member, member.addition = addition ∧
      member.offset = layout.nextOffset addition.type ∧
      layout.add addition.name addition.type addition.access = .ok (member,
        ⟨layout.members ++ [member], member.stop⟩)) := by
  unfold add Refuses
  rw [← isSome_get?]
  by_cases hname : isMemberName addition.name = true
  · by_cases htaken : (layout.get? addition.name).isSome = true
    · exact .inl ⟨.inr (.inl htaken), _, by rw [hname, htaken]; rfl⟩
    · by_cases hvoid : addition.type.base = .void
      · exact .inl ⟨.inr (.inr hvoid), .voidMember addition.name, by simp [hname, htaken, ValueType.isVoid, hvoid]⟩
      · refine .inr ⟨by simp [hname, htaken, hvoid],
          ⟨addition.name, addition.type, layout.nextOffset addition.type, addition.access⟩, rfl, rfl, ?_⟩
        simp [hname, htaken, ValueType.isVoid, hvoid, Member.stop]
  · exact .inl ⟨.inl (by simpa using hname), .invalidName addition.name, by simp [hname]⟩

lemma isAccepted_iff (layout : Layout) (addition : Addition) :
    addition.isAccepted (layout.members.map Member.name) = true ↔ ¬layout.Refuses addition := by
  simp [Addition.isAccepted, Refuses, ValueType.isVoid, and_assoc]

/-- A request changes nothing if it is refused. -/
lemma refused_iff (layout : Layout) (addition : Addition) :
    ((∃ err, layout.add addition.name addition.type addition.access = .error err) ↔ layout.Refuses addition) ∧
      (layout.Refuses addition → layout.after addition = layout) := by
  obtain ⟨hrefuses, err, herror⟩ | ⟨hrefuses, member, -, -, hok⟩ := layout.add_cases addition
  · exact ⟨⟨fun _ => hrefuses, fun _ => ⟨err, herror⟩⟩, fun _ => by rw [after, herror]⟩
  · refine ⟨⟨?_, fun h => absurd h hrefuses⟩, fun h => absurd h hrefuses⟩
    rintro ⟨err, herror⟩
    rw [hok] at herror
    cases herror

lemma Holds.after {additions : List Addition} (h : layout.Holds additions) (addition : Addition) :
    (layout.after addition).Holds (additions ++ [addition]) := by
  have hnames : (Addition.accepted [] additions).map Addition.name = layout.members.map Member.name := by
    rw [← h.members, map_map]
    rfl
  obtain ⟨hrefuses, err, herror⟩ | ⟨hrefuses, member, rfl, hoffset, hok⟩ := layout.add_cases addition
  · have hsame : Addition.accepted [] (additions ++ [addition]) = Addition.accepted [] additions := by
      rw [Addition.accepted_append, nil_append, hnames, if_neg, append_nil]
      exact fun hgranted => (layout.isAccepted_iff addition).mp hgranted hrefuses
    rw [Layout.after, herror]
    exact { h with members := h.members.trans hsame.symm }
  · have hvoid : member.type.base ≠ .void := fun hv => hrefuses (.inr (.inr hv))
    have hplaced : Member.PlacedFrom 0 (layout.members ++ [member]) := by
      refine h.placed.append ?_
      rw [← h.size, hoffset]
      exact isLeast_roundUp layout.size (Base.size_pos hvoid)
    rw [Layout.after, hok]
    refine ⟨?_, ?_, fun other ho => ?_, hplaced, hplaced.pairwise, ?_⟩
    · rw [Addition.accepted_append, nil_append, hnames, if_pos ((layout.isAccepted_iff _).mpr hrefuses),
        ← h.members, map_append]
      rfl
    · rw [map_append, nodup_append]
      refine ⟨h.names, pairwise_singleton .., fun name hn other ho heq => hrefuses (.inr (.inl ?_))⟩
      rw [heq, mem_singleton.mp ho] at hn
      exact hn
    · rcases mem_append.mp ho with ho | ho
      · exact h.notVoid other ho
      · exact mem_singleton.mp ho ▸ hvoid
    · simp

/-- A layout with what is granted of some requests. -/
def ofAdditions (additions : List Addition) : Layout := additions.foldl after empty

lemma holds_ofAdditions (additions : List Addition) : (ofAdditions additions).Holds additions := by
  induction additions using reverseRecOn with
  | nil => exact ⟨rfl, .nil, fun _ hm => (by cases hm), trivial, .nil, rfl⟩
  | append_singleton earlier last ih =>
    rw [ofAdditions, foldl_append]
    exact ih.after last

/-- A layout holds what was granted of all requests.  It refuses a further one
for the given reasons only, and then stays as it is. -/
theorem holds_of_additions (additions : List Addition) : (ofAdditions additions).Holds additions ∧ ∀ addition,
      ((∃ error, (ofAdditions additions).add addition.name addition.type addition.access = .error error) ↔
        (ofAdditions additions).Refuses addition) ∧
      ((ofAdditions additions).Refuses addition → (ofAdditions additions).after addition =
        ofAdditions additions) :=
  ⟨holds_ofAdditions additions, refused_iff _⟩

end Layout

end Shading
