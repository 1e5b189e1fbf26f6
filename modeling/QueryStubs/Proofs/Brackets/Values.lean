import QueryStubs.Proofs.Brackets.Partners
import QueryStubs.Proofs.Faultless.Inside

/-!
# Brackets in the values of variables

The value of a variable is read with one count for brackets of all shapes. So in a source without errors every bracket in a value has its
partner (`Parsed.brackets_of_values`): each that closes does so to the last that is open in front of it, and none is left open. But two
partners need not be of one shape (`Parsed.shapes_differ`).
-/

namespace QueryStubs

open Grammar

namespace Grammar

namespace Brackets

/-- Every bracket has one partner and no other. -/
structure Nested (b : Brackets) (ks : List TokenKind) : Prop where
  closed : ∀ j, ks[j]?.any b.closes = true → ∃! i, b.Partners ks i j
  opened : ∀ i, ks[i]?.any b.opens = true → ∃! j, b.Partners ks i j

/-- So it is in kinds that are counted down to nothing. -/
theorem nested_of_counted {b : Brackets} {ks : List TokenKind} (h : b.depthFrom 0 ks = some 0) : b.Nested ks where
  closed j hj := by
    obtain ⟨i, hi⟩ := closed_of_counted h hj
    exact ⟨i, hi, fun i' hi' => hi'.unique_open hi⟩
  opened i hi := by
    obtain ⟨j, hj⟩ := opened_of_counted h hi
    exact ⟨j, hj, fun j' hj' => hj'.unique_close hj⟩

end Brackets

/-- Kinds that can be counted although some of them must not stand outside all brackets can be counted. -/
theorem depthAfter_unstopped {opens closes stops : TokenKind → Bool} {n m : Nat} {ks : List TokenKind}
    (h : depthAfter opens closes stops n ks = some m) : depthAfter opens closes (fun _ => false) n ks = some m := by
  fun_induction depthAfter opens closes stops n ks with
  | case1 => exact h
  | case2 n k ks ho ih => rw [depthAfter_open ho, ih h]
  | case3 => cases h
  | case4 k ks ho hc n ih => rw [depthAfter_close (Bool.not_eq_true _ ▸ ho) hc, ih h]
  | case5 => cases h
  | case6 n k ks ho hc hs ih =>
    rw [Bool.not_eq_true] at ho hc
    rw [depthAfter_other ho hc (by simp), ih h]

/-- The brackets in the kinds that a value may consist of have their partners. -/
theorem ValueKinds.nested {ks : List TokenKind} (h : ValueKinds ks) : Brackets.all.Nested ks :=
  Brackets.nested_of_counted (depthAfter_unstopped h.2)

namespace Form

/-- The form of what is in the node of a value. -/
def valueParts : Form := .row [.mark .colonEquals, .run ValueKinds]

/-- What is made of it is a mark and such kinds. -/
theorem Makes.value {ts : List Tree} (h : valueParts.Makes ts) :
    ∃ mark value, Tree.meantOf ts = mark :: value ∧ mark.kind = .colonEquals ∧ ValueKinds (value.map (·.kind)) := by
  obtain ⟨us, vs, rfl, hmark, w, hvalue, rfl⟩ := h
  obtain ⟨mark, hkind, hmeant⟩ := hmark.meant_mark rfl
  refine ⟨mark, w.filter (!·.isTrivia), ?_, hkind, hvalue⟩
  rw [Tree.meantOf_append, hmeant, Tree.meantOf_leavesFor]
  rfl

/-- Values are of this form. -/
def IsValue (_ : Bool) (kind : NodeKind) (f : Form) : Prop := kind = .varValue → f = valueParts

/-- Wherever there is a value in a module, it is of this form. -/
theorem values_whole : whole.Every IsValue := by
  refine Nodes.every_whole (fun kind _ hk => ?_) nofun
  rw [hk]
  rfl

end Form

end Grammar

namespace Parsed

variable {source : String}

/-- In a source without errors the brackets in every value have their partners, whatever their shapes. -/
theorem brackets_of_values (h : (ofSource source).hasErrors = false) {n : Node} (hn : (ofSource source).root.Holds n)
    (hk : n.kind = .varValue) :
    ∃ mark value, n.leaves.filter (!·.isTrivia) = mark :: value ∧ mark.kind = .colonEquals ∧ value ≠ [] ∧
      Brackets.all.Nested (value.map (·.kind)) := by
  obtain ⟨led, f, o, o', hvalue, -, ho, -, hb⟩ := (inside_root h Form.values_whole).holds hn
  obtain rfl := hvalue hk
  obtain ⟨mark, value, hmeant, hmark, hkinds⟩ := (hb.makes ho.lexical).value
  refine ⟨mark, value, hmeant, hmark, fun hnil => ?_, hkinds.nested⟩
  rw [hnil] at hkinds
  exact hkinds.1 rfl

/-- The value in the first variable declaration of a source. -/
def firstValue? (source : String) : Option Node :=
  ((ofSource source).root.prolog?.bind (Node.child? .varDecl)).bind (Node.child? .varValue)

/-- It is a value in the tree. -/
theorem firstValue_holds {n : Node} (h : firstValue? source = some n) : (ofSource source).root.Holds n ∧ n.kind = .varValue := by
  obtain ⟨decl, hdecl, hn⟩ := Option.bind_eq_some_iff.mp h
  obtain ⟨prolog, hprolog, hdecl⟩ := Option.bind_eq_some_iff.mp hdecl
  have hroot : (ofSource source).root.Holds (ofSource source).root := .refl
  exact ⟨((hroot.child hprolog).child hdecl).child hn, Node.kind_of_child? hn⟩

set_option maxRecDepth 10000 in
/-- The brackets of a value with parentheses inside parentheses. -/
theorem brackets_of_call :
    (ofSource "declare variable $x := f((1)[2]);").hasErrors = false ∧
      ∃ n, (ofSource "declare variable $x := f((1)[2]);").root.Holds n ∧ n.kind = .varValue ∧
        ∃ mark value, n.leaves.filter (!·.isTrivia) = mark :: value ∧ mark.kind = .colonEquals ∧ value ≠ [] ∧
          Brackets.all.Nested (value.map (·.kind)) := by
  have hclean : (ofSource "declare variable $x := f((1)[2]);").hasErrors = false := by cbv
  have hsome : (firstValue? "declare variable $x := f((1)[2]);").isSome = true := by cbv
  obtain ⟨n, hn⟩ := Option.isSome_iff_exists.mp hsome
  obtain ⟨hholds, hkind⟩ := firstValue_holds hn
  exact ⟨hclean, n, hholds, hkind, brackets_of_values hclean hholds hkind⟩

set_option maxRecDepth 10000 in
/-- A value without errors in which a square bracket closes a parenthesis. -/
theorem shapes_differ :
    (ofSource "declare variable $x := (];").hasErrors = false ∧
      ∃ n, (ofSource "declare variable $x := (];").root.Holds n ∧ n.kind = .varValue ∧
        (n.leaves.filter (!·.isTrivia)).map (·.kind) = [.colonEquals, .parenOpen, .bracketClose] ∧
          Brackets.all.Partners [.parenOpen, .bracketClose] 0 1 := by
  have hvalue : firstValue? "declare variable $x := (];" =
      some ⟨.varValue, leavesFor [⟨.colonEquals, ":="⟩, ⟨.blank, " "⟩, ⟨.parenOpen, "("⟩, ⟨.bracketClose, "]"⟩], 20⟩ := by cbv
  obtain ⟨hholds, hkind⟩ := firstValue_holds hvalue
  exact ⟨by cbv, _, hholds, hkind, by cbv, by decide⟩

end Parsed

end QueryStubs
