import BindingPower.Value.Printing
import Mathlib.Data.Option.Basic

/-! Trees: nodes over nodes down to the leaves. Such a value is printed on one line, and it is laid
out with one node a line, as long as its leaves are printed. What may keep a tree of numerals and words
from being printed is an integer that is too long. -/
namespace BindingPower.Value

/-- A value that is a node, all of whose children are. A choice may do without its last child. -/
inductive Tree (leaf : Value → Prop) : Value → Prop
  | leaf {v : Value} (h : leaf v) : Tree leaf v
  | unary {op : String} {v : Value} (h : Tree leaf v) : Tree leaf (.unary (.text op) v)
  | binary {op : String} {v w : Value} (hv : Tree leaf v) (hw : Tree leaf w) :
      Tree leaf (.binary (.text op) v w)
  | choice {c v w : Value} (hc : Tree leaf c) (hv : Tree leaf v) (hw : Tree leaf w) :
      Tree leaf (.choice c v w)
  | short {c v : Value} (hc : Tree leaf c) (hv : Tree leaf v) : Tree leaf (.choice c v .absent)

/-- The first is the second or a node in it. -/
inductive Part (u : Value) : Value → Prop
  | self : Part u u
  | operand {op v : Value} (h : Part u v) : Part u (.unary op v)
  | left {op v w : Value} (h : Part u v) : Part u (.binary op v w)
  | right {op v w : Value} (h : Part u w) : Part u (.binary op v w)
  | cond {c v w : Value} (h : Part u c) : Part u (.choice c v w)
  | yes {c v w : Value} (h : Part u v) : Part u (.choice c v w)
  | otherwise {c v w : Value} (h : Part u w) : Part u (.choice c v w)

/-- A leaf that holds an integer. -/
def IntegerLeaf (v : Value) : Prop := ∃ i, v = .number (.int i)

/-- A leaf that holds a number as numerals denote them, or a word. -/
def AnyLeaf (v : Value) : Prop :=
  (∃ i, v = .number (.int i)) ∨ (∃ x, v = .number (.float x)) ∨ ∃ word, v = .name (.text word)

/-- A leaf of the tree holds an integer that is too long to be written. -/
def HoldsLong (t : Value) : Prop := ∃ i, Part (.number (.int i)) t ∧ Number.isLong i = true

/-- A value that is printed as it stands, on one line and laid out. -/
structure Printable (v : Value) : Prop where
  printed : v.printed = .ok v.plain
  layout : ∀ indent, ∃ lines, v.layout indent = .ok lines

variable {leaf leaf' : Value → Prop} {c v w : Value}

theorem Tree.mono (h : v.Tree leaf) (hleaf : ∀ v, leaf v → leaf' v) : v.Tree leaf' := by
  induction h with
  | leaf h => exact .leaf (hleaf _ h)
  | unary _ ih => exact .unary ih
  | binary _ _ ihv ihw => exact .binary ihv ihw
  | choice _ _ _ ihc ihv ihw => exact .choice ihc ihv ihw
  | short _ _ ihc ihv => exact .short ihc ihv

/-- The nodes of a tree are nodes if its leaves are. -/
theorem Tree.isTree (h : v.Tree leaf) (hleaf : ∀ v, leaf v → v.isTree = true) : v.isTree = true := by
  cases h with
  | leaf h => exact hleaf v h
  | unary | binary | choice | short => rfl

theorem AnyLeaf.isTree (h : v.AnyLeaf) : v.isTree = true := by
  obtain ⟨i, rfl⟩ | ⟨x, rfl⟩ | ⟨word, rfl⟩ := h <;> rfl

theorem IntegerLeaf.anyLeaf (h : v.IntegerLeaf) : v.AnyLeaf := .inl h

theorem printed_of_textFault? (h : v.textFault? = none) : v.printed = .ok v.plain := by
  rw [printed, h]

private theorem textFault?_unary (op : String) : (unary (text op) v).textFault? = v.textFault? := rfl

private theorem textFault?_binary (op : String) :
    (binary (text op) v w).textFault? = (v.textFault? <|> w.textFault?) := rfl

/-- Nothing in a tree keeps it from being printed if nothing in its leaves does. -/
theorem Tree.textFault? (h : v.Tree leaf) (hleaf : ∀ v, leaf v → v.textFault? = none) :
    v.textFault? = none := by
  induction h with
  | leaf h => exact hleaf _ h
  | unary _ ih => rw [textFault?_unary, ih]
  | binary _ _ ihv ihw => rw [textFault?_binary, ihv, ihw]; rfl
  | choice _ _ _ ihc ihv ihw => rw [Value.textFault?, ihc, ihv, ihw]; rfl
  | short _ _ ihc ihv => rw [Value.textFault?, ihc, ihv]; rfl

theorem printed_text (s : String) : (text s).printed = .ok s := rfl

theorem Tree.isAbsent (h : v.Tree leaf) (hleaf : ∀ v, leaf v → v.isTree = true) :
    v.isAbsent = false := by
  have hnode := h.isTree hleaf
  cases v with
  | absent => cases hnode
  | _ => rfl

theorem AnyLeaf.layout (h : v.AnyLeaf) (hprinted : v.textFault? = none) (indent : String) :
    ∃ lines, v.layout indent = .ok lines := by
  obtain ⟨i, rfl⟩ | ⟨x, rfl⟩ | ⟨word, rfl⟩ := h
  · have hi : (int i).printed = .ok (int i).plain := printed_of_textFault? hprinted
    exact ⟨_, by rw [Value.layout, hi]; rfl⟩
  · exact ⟨_, rfl⟩
  · exact ⟨_, rfl⟩

theorem Tree.layout (h : v.Tree AnyLeaf) (hprinted : v.textFault? = none) (indent : String) :
    ∃ lines, v.layout indent = .ok lines := by
  induction h generalizing indent with
  | leaf h => exact h.layout hprinted indent
  | unary _ ih =>
    obtain ⟨lines, hlines⟩ := ih hprinted (indent ++ "  ")
    simp only [Value.layout, printed_text, hlines]
    exact ⟨_, rfl⟩
  | binary _ _ ihv ihw =>
    rw [textFault?_binary] at hprinted
    obtain ⟨hv, hw⟩ := (Option.orElse_eq_none _ _).1 hprinted
    obtain ⟨left, hleft⟩ := ihv hv (indent ++ "  ")
    obtain ⟨right, hright⟩ := ihw hw (indent ++ "  ")
    simp only [Value.layout, printed_text, hleft, hright]
    exact ⟨_, rfl⟩
  | choice _ _ hw ihc ihv ihw =>
    obtain ⟨hc, hprinted⟩ := (Option.orElse_eq_none _ _).1 hprinted
    obtain ⟨hv, hlast⟩ := (Option.orElse_eq_none _ _).1 hprinted
    obtain ⟨cond, hcond⟩ := ihc hc (indent ++ "  ")
    obtain ⟨yes, hyes⟩ := ihv hv (indent ++ "  ")
    obtain ⟨otherwise, hotherwise⟩ := ihw hlast (indent ++ "  ")
    simp only [Value.layout, hcond, hyes, hotherwise, hw.isAbsent fun _ => AnyLeaf.isTree]
    exact ⟨_, rfl⟩
  | short _ _ ihc ihv =>
    obtain ⟨hc, hprinted⟩ := (Option.orElse_eq_none _ _).1 hprinted
    obtain ⟨hv, -⟩ := (Option.orElse_eq_none _ _).1 hprinted
    obtain ⟨cond, hcond⟩ := ihc hc (indent ++ "  ")
    obtain ⟨yes, hyes⟩ := ihv hv (indent ++ "  ")
    simp only [Value.layout, hcond, hyes]
    exact ⟨_, rfl⟩

private theorem Tree.printable (h : v.Tree AnyLeaf) (hprinted : v.textFault? = none) : v.Printable :=
  ⟨printed_of_textFault? hprinted, h.layout hprinted⟩

/-! Long integers -/

private theorem holdsLong_unary (op : Value) : (unary op v).HoldsLong ↔ v.HoldsLong := by
  refine exists_congr fun i => and_congr_left' ⟨fun h => ?_, .operand⟩
  cases h with
  | operand h => exact h

private theorem holdsLong_binary (op : Value) : (binary op v w).HoldsLong ↔ v.HoldsLong ∨ w.HoldsLong := by
  simp only [HoldsLong, ← exists_or, ← or_and_right]
  refine exists_congr fun i => and_congr_left' ⟨fun h => ?_, fun h => h.elim .left .right⟩
  cases h with
  | left h => exact .inl h
  | right h => exact .inr h

private theorem holdsLong_choice :
    (choice c v w).HoldsLong ↔ c.HoldsLong ∨ v.HoldsLong ∨ w.HoldsLong := by
  simp only [HoldsLong, ← exists_or, ← or_and_right]
  refine exists_congr fun i => and_congr_left' ⟨fun h => ?_, fun h => ?_⟩
  · cases h with
    | cond h => exact .inl h
    | yes h => exact .inr (.inl h)
    | otherwise h => exact .inr (.inr h)
  · exact h.elim .cond fun h => h.elim .yes .otherwise

private theorem not_holdsLong_absent : ¬ absent.HoldsLong := by
  rintro ⟨i, ⟨⟩, -⟩

/-- The fault that there is if something is too long. -/
def FaultIf (f : Option Fault) (long : Prop) : Prop :=
  f = none ∧ ¬ long ∨ f = some .longInteger ∧ long

private theorem FaultIf.orElse {f g : Option Fault} {p q : Prop} (hf : FaultIf f p) (hg : FaultIf g q) :
    FaultIf (f <|> g) (p ∨ q) := by
  obtain ⟨rfl, hp⟩ | ⟨rfl, hp⟩ := hf
  · obtain ⟨rfl, hq⟩ | ⟨rfl, hq⟩ := hg
    · exact .inl ⟨rfl, not_or.2 ⟨hp, hq⟩⟩
    · exact .inr ⟨rfl, .inr hq⟩
  · exact .inr ⟨rfl, .inl hp⟩

private theorem AnyLeaf.faultIf (h : v.AnyLeaf) : FaultIf v.textFault? v.HoldsLong := by
  obtain ⟨i, rfl⟩ | ⟨x, rfl⟩ | ⟨word, rfl⟩ := h
  · cases hi : Number.isLong i with
    | true => exact .inr ⟨if_pos hi, i, .self, hi⟩
    | false =>
      refine .inl ⟨if_neg (by simp [hi]), ?_⟩
      rintro ⟨j, ⟨⟩, hj⟩
      cases hi.symm.trans hj
  · exact .inl ⟨rfl, by rintro ⟨j, ⟨⟩, -⟩⟩
  · exact .inl ⟨rfl, by rintro ⟨j, ⟨⟩, -⟩⟩

/-- A tree of numerals and words is printed unless it holds an integer that is too long. -/
theorem Tree.faultIf (h : v.Tree AnyLeaf) : FaultIf v.textFault? v.HoldsLong := by
  induction h with
  | leaf h => exact h.faultIf
  | unary _ ih => rwa [textFault?_unary, holdsLong_unary]
  | binary _ _ ihv ihw =>
    rw [textFault?_binary, holdsLong_binary]
    exact ihv.orElse ihw
  | choice _ _ _ ihc ihv ihw =>
    rw [Value.textFault?, holdsLong_choice]
    exact ihc.orElse (ihv.orElse ihw)
  | short _ _ ihc ihv =>
    rw [Value.textFault?, holdsLong_choice]
    exact ihc.orElse (ihv.orElse (.inl ⟨rfl, not_holdsLong_absent⟩))

/-- A tree whose leaves are all printed holds none. -/
theorem Tree.not_holdsLong (h : v.Tree AnyLeaf) (hprinted : v.textFault? = none) : ¬ v.HoldsLong := by
  rcases h.faultIf with ⟨-, hlong⟩ | ⟨hfault, -⟩
  · exact hlong
  · cases hprinted.symm.trans hfault

theorem Tree.printed_or_long (h : v.Tree AnyLeaf) :
    v.Printable ∧ ¬ v.HoldsLong ∨ v.printed = .error .longInteger ∧ v.HoldsLong := by
  rcases h.faultIf with ⟨hprinted, hlong⟩ | ⟨hfault, hlong⟩
  · exact .inl ⟨h.printable hprinted, hlong⟩
  · exact .inr ⟨by rw [printed, hfault], hlong⟩

end BindingPower.Value
