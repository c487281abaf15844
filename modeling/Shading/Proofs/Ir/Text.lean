import Mathlib.Data.List.Basic
import Shading.Ir.Text

/-!
# Colored and plain text

The colored text of a builder without its escape sequences is the plain one, and
without color the two are the same (`Builder.strip_text`).
-/

namespace Shading

open List

/-! ## Escape sequences -/

/-- A text without escape sequences, which go from the escape character to the
next letter `m`.  With `inside` the text starts inside of one. -/
def stripFrom : (inside : Bool) → List Char → List Char
  | _, [] => []
  | true, c :: rest => stripFrom (c ≠ 'm') rest
  | false, c :: rest => if c = '\x1b' then stripFrom true rest else c :: stripFrom false rest

def stripEscapes (text : String) : String := String.ofList (stripFrom false text.toList)

/-- A text without escape characters. -/
def Plain (text : List Char) : Prop := ∀ c ∈ text, c ≠ '\x1b'

instance (text : List Char) : Decidable (Plain text) := decidableBAll (· ≠ '\x1b') text

@[simp] lemma plain_nil : Plain [] := forall_mem_nil _

@[simp] lemma plain_append {a b : List Char} : Plain (a ++ b) ↔ Plain a ∧ Plain b := forall_mem_append

@[simp] lemma plain_cons {c : Char} {text : List Char} : Plain (c :: text) ↔ c ≠ '\x1b' ∧ Plain text :=
  forall_mem_cons

lemma stripFrom_plain {text : List Char} (h : Plain text) (rest : List Char) :
    stripFrom false (text ++ rest) = text ++ stripFrom false rest := by
  induction text with
  | nil => rfl
  | cons c text ih =>
    rw [plain_cons] at h
    rw [cons_append, stripFrom, if_neg h.1, ih h.2, cons_append]

lemma stripFrom_inside {codes : List Char} (h : 'm' ∉ codes) (rest : List Char) :
    stripFrom true (codes ++ 'm' :: rest) = stripFrom false rest := by
  induction codes with
  | nil => rfl
  | cons c codes ih =>
    have hc : c ≠ 'm' := fun heq => h (heq ▸ mem_cons_self)
    rw [cons_append, stripFrom, decide_eq_true hc, ih fun hm => h (mem_cons_of_mem _ hm)]

/-- The second text is the first without color. -/
structure Depicts (color : Bool) (painted plain : String) : Prop where
  off : color = false → painted = plain
  on : ∀ rest, stripFrom false (painted.toList ++ rest) = plain.toList ++ stripFrom false rest

namespace Depicts

variable {color : Bool} {a b p q : String}

lemma same (h : Plain p.toList) : Depicts color p p := ⟨fun _ => rfl, stripFrom_plain h⟩

lemma append (ha : Depicts color a p) (hb : Depicts color b q) : Depicts color (a ++ b) (p ++ q) := by
  refine ⟨fun h => by rw [ha.off h, hb.off h], fun rest => ?_⟩
  rw [String.toList_append, append_assoc, ha.on, hb.on, String.toList_append, append_assoc]

lemma join {α : Type} {f g : α → String} {xs : List α} (h : ∀ x ∈ xs, Depicts color (f x) (g x)) :
    Depicts color (String.join (xs.map f)) (String.join (xs.map g)) := by
  induction xs with
  | nil => exact same plain_nil
  | cons x xs ih =>
    rw [map_cons, map_cons, String.join_cons, String.join_cons]
    exact (h x mem_cons_self).append (ih fun y hy => h y (mem_cons_of_mem _ hy))

/-- An escape sequence shows nothing. -/
lemma escape {codes : String} (h : 'm' ∉ codes.toList) (rest : List Char) :
    stripFrom false ((Paint.escape codes).toList ++ rest) = stripFrom false rest := by
  have hm : 'm' ∉ '[' :: codes.toList := fun hm => (mem_cons.mp hm).elim (by decide) h
  have htext : (Paint.escape codes).toList ++ rest = '\x1b' :: (('[' :: codes.toList) ++ 'm' :: rest) := by
    simp [Paint.escape, String.toList_append]
  rw [htext, stripFrom, if_pos rfl, stripFrom_inside hm]

lemma paint (coloring : Coloring) (paint : Paint) (h : Plain p.toList) :
    Depicts color (coloring.apply color paint p) p := by
  cases color with
  | false =>
    rw [coloring.off]
    exact same h
  | true =>
    obtain ⟨first, last, hfirst, hlast, heq⟩ := coloring.on paint p
    refine ⟨(fun h => by cases h), fun rest => ?_⟩
    rw [heq, String.toList_append, String.toList_append, append_assoc, append_assoc, escape hfirst,
      stripFrom_plain h, escape hlast]

end Depicts

/-! ## Words -/

/-- At least one character, and no escape characters. -/
def IsPrinted (text : String) : Prop := text ≠ "" ∧ Plain text.toList

instance (text : String) : Decidable (IsPrinted text) := instDecidableAnd

@[simp] lemma isPrinted_append {a b : String} :
    IsPrinted (a ++ b) ↔ (a ≠ "" ∨ b ≠ "") ∧ Plain a.toList ∧ Plain b.toList := by
  rw [IsPrinted, String.toList_append, plain_append, ne_eq, String.append_eq_empty_iff, not_and_or]

@[simp] lemma plain_toDigits (n : Nat) : Plain (Nat.toDigits 10 n) := by
  rintro _ hm rfl
  exact absurd (Nat.isDigit_of_mem_toDigits (by decide) (by decide) hm) (by decide)

@[simp] lemma plain_repr (n : Int) : Plain n.repr.toList := by
  cases n <;> simp [Int.repr]

lemma repr_ne_empty (n : Int) : n.repr ≠ "" := by
  cases n <;> simp [Int.repr]

namespace Decimal

variable (d : Decimal)

lemma plain_significant : Plain d.significant.1 := by
  unfold significant
  dsimp only
  split
  · decide
  · exact fun c hm => plain_toDigits d.digits c (mem_reverse.mp ((dropWhile_sublist _).subset (mem_reverse.mp hm)))

lemma isPrinted_text : IsPrinted d.text := by
  have hdigits := d.plain_significant
  have htake (n : Nat) : Plain (d.significant.1.take n) := fun c hm => hdigits c (mem_of_mem_take hm)
  have hdrop (n : Nat) : Plain (d.significant.1.drop n) := fun c hm => hdigits c (mem_of_mem_drop hm)
  have hzeros (n : Nat) : Plain (replicate n '0') := fun c hm => by simp [eq_of_mem_replicate hm]
  unfold text positional scientific
  split
  · decide
  · dsimp only
    split_ifs <;> simp [IsPrinted, hdigits, htake, hdrop, hzeros, -drop_one]

end Decimal

lemma BinaryFormat.isPrinted_text (format : BinaryFormat) (word : Nat) : IsPrinted (format.text word) := by
  have hsign : Plain (if format.isNegative word then "-" else "").toList := by split <;> decide
  unfold text
  dsimp only
  split
  · exact isPrinted_append.mpr ⟨.inr (Decimal.isPrinted_text _).1, hsign, (Decimal.isPrinted_text _).2⟩
  · exact isPrinted_append.mpr ⟨.inr (by decide), hsign, by decide⟩
  · decide

lemma Value.isPrinted_text (value : Value) : IsPrinted value.text := by
  cases value with
  | bool b => cases b <;> decide
  | int n => exact ⟨repr_ne_empty _, plain_repr _⟩
  | float x => exact isPrinted_append.mpr ⟨.inr (by decide), (BinaryFormat.isPrinted_text _ _).2, by decide⟩
  | double x => exact BinaryFormat.isPrinted_text _ _

lemma InstCode.plain_mnemonic (code : InstCode) : Plain code.mnemonic.toList := by
  cases code with
  | move width | fetch width | store width => cases width <;> decide
  | int code | single code | double code | bits code | convert code => cases code <;> decide
  | compare code element => cases code <;> cases element <;> decide
  | jmp | jnz | ret => decide

lemma Opcode.plain_text (opcode : Opcode) : Plain opcode.text.toList := by
  have hwidth : Plain opcode.width.text.toList := by cases opcode.width <;> decide
  rw [text, String.toList_append]
  exact plain_append.mpr ⟨opcode.code.plain_mnemonic, hwidth⟩

/-! ## Lines -/

namespace Builder

variable (ir : Builder) (coloring : Coloring) (color : Bool)

lemma isPrinted_operandText (id : ObjectId) : IsPrinted (ir.operandText id) := by
  have hbase (id : ObjectId) : Plain (ir.baseText id).toList := by
    unfold baseText
    split <;> simp
  unfold operandText
  split
  · simp
  · exact Value.isPrinted_text _
  · simp
  · simp [hbase]
  · decide

lemma depicts_operands (id : ObjectId) (rest : List ObjectId) :
    Depicts color (ir.operandsText (coloring.apply color) (id :: rest))
      (ir.operandText id ++ String.join (rest.map fun id => ", " ++ ir.operandText id)) := by
  have hoperand (id : ObjectId) : Depicts color (coloring.apply color (ir.operandPaint id) (ir.operandText id))
      (ir.operandText id) := .paint _ _ (ir.isPrinted_operandText id).2
  induction rest generalizing id with
  | nil =>
    have := hoperand id
    simpa [operandsText] using this
  | cons next rest ih =>
    have := (hoperand id).append ((Depicts.same (by decide : Plain (", ").toList)).append (ih next))
    simpa [operandsText, String.append_assoc] using this

lemma dumpOperands_cons (id : ObjectId) (rest : List ObjectId) : ir.dumpOperands (id :: rest) =
    " " ++ (ir.operandText id ++ String.join (rest.map fun id => ", " ++ ir.operandText id)) := by
  have hrest : (rest.mapIdx fun _ id => ", " ++ ir.operandText id) = rest.map fun id => ", " ++
      ir.operandText id :=
    ext_getElem? fun i => by simp
  simp [dumpOperands, mapIdx_cons, String.append_assoc, hrest]

lemma depicts_instruction (instr : Instruction) :
    Depicts color (ir.instructionLine (coloring.apply color) instr ++ "\n") (ir.dumpInstruction instr) := by
  have hcode : Depicts color ("  " ++ coloring.apply color (codePaint instr.opcode.code) instr.opcode.text)
      ("  " ++ instr.opcode.text) := (Depicts.same (by decide)).append (.paint _ _ instr.opcode.plain_text)
  have hoperands : Depicts color (if (ir.operandsText (coloring.apply color) instr.operands).isEmpty then ""
        else " " ++ ir.operandsText (coloring.apply color) instr.operands)
      (ir.dumpOperands instr.operands) := by
    cases instr.operands with
    | nil => exact .same plain_nil
    | cons id rest =>
      have hshown := ir.depicts_operands coloring color id rest
      rw [dumpOperands_cons, if_neg]
      · exact (Depicts.same (by decide)).append hshown
      · intro hempty
        have hnil := hshown.on []
        rw [String.isEmpty_iff.mp hempty] at hnil
        rw [String.toList_append, append_assoc] at hnil
        exact (ir.isPrinted_operandText id).1 (String.toList_inj.mp (append_eq_nil_iff.mp hnil.symm).1)
  exact (hcode.append hoperands).append (.same (by decide))

lemma depicts_block (block : Block) :
    Depicts color (String.join ((ir.blockLines (coloring.apply color) block).map (· ++ "\n")))
    (ir.dumpBlock block) := by
  rw [blockLines, map_cons, String.join_cons, map_map]
  refine Depicts.append (.append (.paint _ _ ?_) (.same (by decide)))
    (.join fun instr _ => ir.depicts_instruction coloring color instr)
  rw [String.toList_append]
  simp

lemma depicts_text : Depicts color (ir.text (coloring.apply color)) ir.dump := by
  have hjoin : ir.text (coloring.apply color) = String.join ((ir.blocks.filterMap ir.block?).map fun block =>
      String.join ((ir.blockLines (coloring.apply color) block).map (· ++ "\n"))) := by
    rw [text, lines, map_flatMap]
    simp [← String.toList_inj, flatMap_map, flatMap_assoc]
  rw [hjoin]
  exact .join fun block _ => ir.depicts_block coloring color block

/-- However text is colored, the colored text of a builder is its plain text
with escape sequences, and equal to it when color is off. -/
theorem strip_text (builder : Builder) (coloring : Coloring) :
    stripEscapes (builder.text (coloring.apply true)) = builder.dump ∧
      builder.text (coloring.apply false) = builder.dump := by
  refine ⟨?_, (builder.depicts_text coloring false).off rfl⟩
  have hstrip := (builder.depicts_text coloring true).on []
  rw [append_nil, stripFrom, append_nil] at hstrip
  rw [stripEscapes, hstrip, String.ofList_toList]

end Builder

end Shading
